/-
A text that breaks off.

The reader of `JsonText.lean` decides a document by the bytes of the document:
what follows changes neither the value nor where it ends (`readValue_append`). A
number is the exception, since it has no last byte of its own; it is decided when
something follows that is no part of it. From this comes that a document of any
other kind is not read before it is complete (`readDocument_refuses`), and that
documents followed by a part of one are read as the documents
(`readWhile_documents`).
-/
import CmsProxy.Framing

set_option autoImplicit false

namespace CmsProxy.Prefixes

open BigEndian (Bytes)
open JsonValue JsonText PrefixCode
open Framing (readDocument SelfDelimiting reads_documents)

/-! ## Strings -/

theorem takeChar_append {bs rest : Bytes} {u : UInt8} (h : takeChar bs = some (u, rest))
    (more : Bytes) : takeChar (bs ++ more) = some (u, rest ++ more) := by
  cases bs with
  | nil => exact nomatch h
  | cons b bs =>
      rw [List.cons_append]
      unfold takeChar at h ⊢
      simp only at h ⊢
      by_cases hescape : b = 92
      · rw [if_pos hescape] at h ⊢
        cases bs with
        | nil => exact nomatch h
        | cons c cs =>
            rw [List.cons_append]
            simp only at h ⊢
            by_cases hlong : c = 117
            · rw [if_pos hlong] at h ⊢
              -- four hexadecimal digits, or nothing
              match cs, h with
              | z :: z' :: x :: l :: cs, h =>
                  simp only [List.cons_append] at h ⊢
                  by_cases hzero : z = 48 ∧ z' = 48
                  · rw [if_pos hzero] at h ⊢
                    obtain ⟨rfl, rfl⟩ := Prod.mk.inj (Option.some.inj h)
                    rfl
                  · rw [if_neg hzero] at h
                    exact nomatch h
            · rw [if_neg hlong] at h ⊢
              obtain ⟨v, hv, heq⟩ := Option.map_eq_some_iff.mp h
              obtain ⟨rfl, rfl⟩ := Prod.mk.inj heq
              rw [hv]
              rfl
      · rw [if_neg hescape] at h ⊢
        obtain ⟨rfl, rfl⟩ := Prod.mk.inj (Option.some.inj h)
        rfl

theorem readChars_append {n n' : ℕ} {bs rest s : Bytes} (h : readChars n bs = some (s, rest))
    (hn : n ≤ n') (more : Bytes) : readChars n' (bs ++ more) = some (s, rest ++ more) := by
  induction n generalizing n' bs s with
  | zero => exact nomatch h
  | succ n ih =>
      obtain ⟨m, rfl⟩ : ∃ m, n' = m + 1 := ⟨n' - 1, by omega⟩
      cases bs with
      | nil => exact nomatch h
      | cons b bs =>
          rw [readChars] at h
          rw [List.cons_append, readChars]
          simp only at h ⊢
          by_cases hquote : b = 34
          · rw [if_pos hquote] at h ⊢
            obtain ⟨rfl, rfl⟩ := Prod.mk.inj (Option.some.inj h)
            rfl
          · rw [if_neg hquote] at h ⊢
            simp only [Option.bind_eq_bind, Option.bind_eq_some_iff] at h
            obtain ⟨⟨u, bs'⟩, htake, ⟨us, bs''⟩, hchars, heq⟩ := h
            obtain ⟨rfl, rfl⟩ := Prod.mk.inj (Option.some.inj heq)
            have htake' := takeChar_append htake more
            rw [List.cons_append] at htake'
            simp only [Option.bind_eq_bind, htake', Option.bind_some,
              ih hchars (Nat.le_of_succ_le_succ hn)]

theorem readKey_append {bs rest k : Bytes} (h : readKey bs = some (k, rest)) (more : Bytes) :
    readKey (bs ++ more) = some (k, rest ++ more) := by
  cases bs with
  | nil => exact nomatch h
  | cons b bs =>
      rw [readKey] at h
      rw [List.cons_append, readKey]
      by_cases hquote : b = 34
      · rw [if_pos hquote] at h ⊢
        simp only [Option.bind_eq_bind, Option.bind_eq_some_iff] at h
        obtain ⟨⟨k', bs'⟩, hchars, hcolon⟩ := h
        have hlength : bs.length + 1 ≤ (bs ++ more).length + 1 := by
          rw [List.length_append]
          omega
        have hchars' := readChars_append hchars hlength more
        simp only [Option.bind_eq_bind, hchars', Option.bind_some]
        cases bs' with
        | nil => cases hcolon
        | cons c bs' =>
            simp only [List.cons_append] at hcolon ⊢
            split_ifs at hcolon ⊢
            obtain ⟨rfl, rfl⟩ := Prod.mk.inj (Option.some.inj hcolon)
            rfl
      · rw [if_neg hquote] at h
        cases h

/-! ## Words and numbers -/

section

variable {F : Type}

theorem readWord_extends {word bs rest : Bytes} {j v : Json F}
    (h : readWord word j bs = some (v, rest)) (more : Bytes) :
    readWord word j (bs ++ more) = some (v, rest ++ more) := by
  rw [readWord] at h ⊢
  by_cases hword : bs.take word.length = word
  · have hlength : word.length ≤ bs.length := by
      have hlen := congrArg List.length hword
      rw [List.length_take] at hlen
      omega
    rw [if_pos hword] at h
    obtain ⟨rfl, rfl⟩ := Prod.mk.inj (Option.some.inj h)
    rw [List.take_append_of_le_length hlength, if_pos hword, List.drop_append_of_le_length hlength]
  · rw [if_neg hword] at h
    cases h

/-- A number token ends where something follows that is no part of it. -/
theorem span_append {p : UInt8 → Bool} {bs : Bytes} (h : bs.dropWhile p ≠ []) (more : Bytes) :
    (bs ++ more).takeWhile p = bs.takeWhile p ∧
      (bs ++ more).dropWhile p = bs.dropWhile p ++ more := by
  have hshorter : (bs.takeWhile p).length ≠ bs.length := by
    intro hlength
    apply h
    have hsplit := congrArg List.length (List.takeWhile_append_dropWhile (p := p) (l := bs))
    rw [List.length_append] at hsplit
    exact List.eq_nil_of_length_eq_zero (by omega)
  constructor
  · rw [List.takeWhile_append, if_neg hshorter]
  · rw [List.dropWhile_append, if_neg (by rwa [List.isEmpty_iff])]

theorem isNumber_readNumber {ft : FloatText F} {t : Bytes} {j : Json F}
    (h : readNumber ft t = some j) : isNumber j = true := by
  rw [readNumber.eq_def] at h
  split_ifs at h
  · obtain ⟨f, -, rfl⟩ := Option.map_eq_some_iff.mp h
    rfl
  · cases t with
    | nil => exact nomatch h
    | cons b ds =>
        simp only at h
        split_ifs at h <;> cases h <;> rfl

/-! ## Documents -/

/-- With `n` calls allowed, what has been read of a text stays read when more of it
arrives and more calls are allowed. A number has to be followed by something. -/
structure Extends (ft : FloatText F) (n : ℕ) : Prop where
  value : ∀ {bs rest v n'}, readValue ft n bs = some (v, rest) → n ≤ n' →
    (isNumber v = true → rest ≠ []) → ∀ more, readValue ft n' (bs ++ more) = some (v, rest ++ more)
  items : ∀ {bs rest xs n'}, readItems ft n bs = some (xs, rest) → n ≤ n' →
    ∀ more, readItems ft n' (bs ++ more) = some (xs, rest ++ more)
  itemsTail : ∀ {bs rest xs n'}, readItemsTail ft n bs = some (xs, rest) → n ≤ n' →
    ∀ more, readItemsTail ft n' (bs ++ more) = some (xs, rest ++ more)
  members : ∀ {bs rest ms n'}, readMembers ft n bs = some (ms, rest) → n ≤ n' →
    ∀ more, readMembers ft n' (bs ++ more) = some (ms, rest ++ more)
  membersTail : ∀ {bs rest ms n'}, readMembersTail ft n bs = some (ms, rest) → n ≤ n' →
    ∀ more, readMembersTail ft n' (bs ++ more) = some (ms, rest ++ more)

/-- A tail is not empty: at least its bracket is there. -/
theorem ne_nil_of_itemsTail {ft : FloatText F} {n : ℕ} {bs : Bytes}
    {r : List (Json F) × Bytes} (h : readItemsTail ft n bs = some r) : bs ≠ [] := by
  rintro rfl
  cases n <;> exact nomatch h

theorem ne_nil_of_membersTail {ft : FloatText F} {n : ℕ} {bs : Bytes}
    {r : List (Bytes × Json F) × Bytes} (h : readMembersTail ft n bs = some r) : bs ≠ [] := by
  rintro rfl
  cases n <;> exact nomatch h

variable {ft : FloatText F} {n : ℕ}

theorem Extends.value_succ (h : Extends ft n) {bs rest : Bytes} {v : Json F} {m : ℕ}
    (hread : readValue ft (n + 1) bs = some (v, rest)) (hn : n ≤ m)
    (hnumber : isNumber v = true → rest ≠ []) (more : Bytes) :
    readValue ft (m + 1) (bs ++ more) = some (v, rest ++ more) := by
  cases bs with
  | nil => exact nomatch hread
  | cons b bs =>
      rw [readValue] at hread
      rw [List.cons_append, readValue]
      by_cases hstring : b = 34
      · rw [if_pos hstring] at hread ⊢
        obtain ⟨⟨s, bs'⟩, hchars, heq⟩ := Option.map_eq_some_iff.mp hread
        obtain ⟨rfl, rfl⟩ := Prod.mk.inj heq
        rw [readChars_append hchars (by rw [List.length_append]; omega) more]
        rfl
      rw [if_neg hstring] at hread ⊢
      by_cases harray : b = 91
      · rw [if_pos harray] at hread ⊢
        obtain ⟨⟨xs, bs'⟩, hitems, heq⟩ := Option.map_eq_some_iff.mp hread
        obtain ⟨rfl, rfl⟩ := Prod.mk.inj heq
        rw [h.items hitems hn more]
        rfl
      rw [if_neg harray] at hread ⊢
      by_cases hobject : b = 123
      · rw [if_pos hobject] at hread ⊢
        obtain ⟨⟨ms, bs'⟩, hmembers, heq⟩ := Option.map_eq_some_iff.mp hread
        obtain ⟨rfl, rfl⟩ := Prod.mk.inj heq
        rw [h.members hmembers hn more]
        rfl
      rw [if_neg hobject] at hread ⊢
      -- the three words, and otherwise a number
      by_cases hnull : b = 110
      · rw [if_pos hnull] at hread ⊢
        exact readWord_extends hread more
      rw [if_neg hnull] at hread ⊢
      by_cases htrue : b = 116
      · rw [if_pos htrue] at hread ⊢
        exact readWord_extends hread more
      rw [if_neg htrue] at hread ⊢
      by_cases hfalse : b = 102
      · rw [if_pos hfalse] at hread ⊢
        exact readWord_extends hread more
      rw [if_neg hfalse] at hread ⊢
      obtain ⟨j, hj, heq⟩ := Option.map_eq_some_iff.mp hread
      obtain ⟨rfl, rfl⟩ := Prod.mk.inj heq
      obtain ⟨htake, hdrop⟩ := span_append (hnumber (isNumber_readNumber hj)) more
      rw [← List.cons_append, htake, hdrop, hj]
      rfl

theorem Extends.itemsTail_succ (h : Extends ft n) {bs rest : Bytes} {xs : List (Json F)} {m : ℕ}
    (hread : readItemsTail ft (n + 1) bs = some (xs, rest)) (hn : n ≤ m) (more : Bytes) :
    readItemsTail ft (m + 1) (bs ++ more) = some (xs, rest ++ more) := by
  cases bs with
  | nil => exact nomatch hread
  | cons b bs =>
      rw [readItemsTail] at hread
      rw [List.cons_append, readItemsTail]
      simp only at hread ⊢
      by_cases hclose : b = 93
      · rw [if_pos hclose] at hread ⊢
        obtain ⟨rfl, rfl⟩ := Prod.mk.inj (Option.some.inj hread)
        rfl
      rw [if_neg hclose] at hread ⊢
      by_cases hcomma : b = 44
      · rw [if_pos hcomma] at hread ⊢
        simp only [Option.bind_eq_bind, Option.bind_eq_some_iff] at hread
        obtain ⟨⟨x, bs'⟩, hvalue, ⟨xs', bs''⟩, htail, heq⟩ := hread
        obtain ⟨rfl, rfl⟩ := Prod.mk.inj (Option.some.inj heq)
        simp only [Option.bind_eq_bind, Option.bind_some, h.itemsTail htail hn more,
          h.value hvalue hn (fun _ => ne_nil_of_itemsTail htail) more]
      · rw [if_neg hcomma] at hread
        exact nomatch hread

theorem Extends.items_succ (h : Extends ft n) {bs rest : Bytes} {xs : List (Json F)} {m : ℕ}
    (hread : readItems ft (n + 1) bs = some (xs, rest)) (hn : n ≤ m) (more : Bytes) :
    readItems ft (m + 1) (bs ++ more) = some (xs, rest ++ more) := by
  cases bs with
  | nil => exact nomatch hread
  | cons b bs =>
      rw [readItems] at hread
      rw [List.cons_append, readItems]
      simp only at hread ⊢
      by_cases hclose : b = 93
      · rw [if_pos hclose] at hread ⊢
        obtain ⟨rfl, rfl⟩ := Prod.mk.inj (Option.some.inj hread)
        rfl
      rw [if_neg hclose] at hread ⊢
      simp only [Option.bind_eq_bind, Option.bind_eq_some_iff] at hread
      obtain ⟨⟨x, bs'⟩, hvalue, ⟨xs', bs''⟩, htail, heq⟩ := hread
      obtain ⟨rfl, rfl⟩ := Prod.mk.inj (Option.some.inj heq)
      rw [← List.cons_append]
      simp only [Option.bind_eq_bind, Option.bind_some, h.itemsTail htail hn more,
        h.value hvalue hn (fun _ => ne_nil_of_itemsTail htail) more]

theorem Extends.membersTail_succ (h : Extends ft n) {bs rest : Bytes}
    {ms : List (Bytes × Json F)} {m : ℕ}
    (hread : readMembersTail ft (n + 1) bs = some (ms, rest)) (hn : n ≤ m) (more : Bytes) :
    readMembersTail ft (m + 1) (bs ++ more) = some (ms, rest ++ more) := by
  cases bs with
  | nil => exact nomatch hread
  | cons b bs =>
      rw [readMembersTail] at hread
      rw [List.cons_append, readMembersTail]
      simp only at hread ⊢
      by_cases hclose : b = 125
      · rw [if_pos hclose] at hread ⊢
        obtain ⟨rfl, rfl⟩ := Prod.mk.inj (Option.some.inj hread)
        rfl
      rw [if_neg hclose] at hread ⊢
      by_cases hcomma : b = 44
      · rw [if_pos hcomma] at hread ⊢
        simp only [Option.bind_eq_bind, Option.bind_eq_some_iff] at hread
        obtain ⟨⟨k, bs'⟩, hkey, ⟨v, bs''⟩, hvalue, ⟨ms', bs'''⟩, htail, heq⟩ := hread
        obtain ⟨rfl, rfl⟩ := Prod.mk.inj (Option.some.inj heq)
        simp only [Option.bind_eq_bind, Option.bind_some, readKey_append hkey more,
          h.membersTail htail hn more,
          h.value hvalue hn (fun _ => ne_nil_of_membersTail htail) more]
      · rw [if_neg hcomma] at hread
        exact nomatch hread

theorem Extends.members_succ (h : Extends ft n) {bs rest : Bytes} {ms : List (Bytes × Json F)}
    {m : ℕ} (hread : readMembers ft (n + 1) bs = some (ms, rest)) (hn : n ≤ m) (more : Bytes) :
    readMembers ft (m + 1) (bs ++ more) = some (ms, rest ++ more) := by
  cases bs with
  | nil => exact nomatch hread
  | cons b bs =>
      rw [readMembers] at hread
      rw [List.cons_append, readMembers]
      simp only at hread ⊢
      by_cases hclose : b = 125
      · rw [if_pos hclose] at hread ⊢
        obtain ⟨rfl, rfl⟩ := Prod.mk.inj (Option.some.inj hread)
        rfl
      rw [if_neg hclose] at hread ⊢
      simp only [Option.bind_eq_bind, Option.bind_eq_some_iff] at hread
      obtain ⟨⟨k, bs'⟩, hkey, ⟨v, bs''⟩, hvalue, ⟨ms', bs'''⟩, htail, heq⟩ := hread
      obtain ⟨rfl, rfl⟩ := Prod.mk.inj (Option.some.inj heq)
      rw [← List.cons_append]
      simp only [Option.bind_eq_bind, Option.bind_some, readKey_append hkey more,
        h.membersTail htail hn more,
        h.value hvalue hn (fun _ => ne_nil_of_membersTail htail) more]

/-- **Extension.** The induction is on the calls allowed, over all five readers. -/
theorem extends_all (ft : FloatText F) (n : ℕ) : Extends ft n := by
  induction n with
  | zero => exact ⟨nofun, nofun, nofun, nofun, nofun⟩
  | succ n ih =>
      have hsucc : ∀ {n'}, n + 1 ≤ n' → ∃ m, n' = m + 1 ∧ n ≤ m :=
        fun {n'} hn => ⟨n' - 1, by omega, by omega⟩
      constructor
      · intro bs rest v n' hread hn hnumber more
        obtain ⟨m, rfl, hm⟩ := hsucc hn
        exact ih.value_succ hread hm hnumber more
      · intro bs rest xs n' hread hn more
        obtain ⟨m, rfl, hm⟩ := hsucc hn
        exact ih.items_succ hread hm more
      · intro bs rest xs n' hread hn more
        obtain ⟨m, rfl, hm⟩ := hsucc hn
        exact ih.itemsTail_succ hread hm more
      · intro bs rest ms n' hread hn more
        obtain ⟨m, rfl, hm⟩ := hsucc hn
        exact ih.members_succ hread hm more
      · intro bs rest ms n' hread hn more
        obtain ⟨m, rfl, hm⟩ := hsucc hn
        exact ih.membersTail_succ hread hm more

/-! ## Parts of documents -/

/-- The bytes a document that is no number can start with. -/
def opening : Bytes := [34, 91, 123, 110, 116, 102]

theorem opens_of_selfDelimiting {j : Json F} (hj : j ∈ SelfDelimiting) :
    ∃ b bs, text ft j = b :: bs ∧ b ∈ opening := by
  cases j with
  | null => exact ⟨110, _, rfl, by decide⟩
  | boolean b => cases b <;> exact ⟨_, _, rfl, by decide⟩
  | string s => exact ⟨34, _, rfl, by decide⟩
  | array xs => exact ⟨91, _, rfl, by decide⟩
  | object ms => exact ⟨123, _, rfl, by decide⟩
  | _ => exact nomatch (show true = false from hj)

theorem eq_of_readWord {word bs rest : Bytes} {j v : Json F}
    (h : readWord word j bs = some (v, rest)) : v = j := by
  rw [readWord] at h
  split_ifs at h
  exact (Prod.mk.inj (Option.some.inj h)).1.symm

/-- What starts with one of them is not read as a number. -/
theorem isNumber_of_opening {b : UInt8} {bs rest : Bytes} {v : Json F} (hb : b ∈ opening)
    (h : readValue ft (n + 1) (b :: bs) = some (v, rest)) : isNumber v = false := by
  rw [readValue] at h
  split_ifs at h with hstring harray hobject hnull htrue hfalse
  · obtain ⟨r, -, heq⟩ := Option.map_eq_some_iff.mp h
    rw [← (Prod.mk.inj heq).1]
    rfl
  · obtain ⟨r, -, heq⟩ := Option.map_eq_some_iff.mp h
    rw [← (Prod.mk.inj heq).1]
    rfl
  · obtain ⟨r, -, heq⟩ := Option.map_eq_some_iff.mp h
    rw [← (Prod.mk.inj heq).1]
    rfl
  · rw [eq_of_readWord h]
    rfl
  · rw [eq_of_readWord h]
    rfl
  · rw [eq_of_readWord h]
    rfl
  · simp only [opening, List.mem_cons, List.not_mem_nil, hstring, harray, hobject, hnull, htrue,
      hfalse, or_self] at hb

/-- **Refusal.** A part of a document that is no number is not read. -/
theorem readDocument_refuses (ft : FloatText F) {j : Json F} (hj : j ∈ SelfDelimiting)
    {bs rest : Bytes} (hcode : bs ++ rest = text ft j) (hrest : rest ≠ []) :
    readDocument ft bs = none := by
  refine (reads_documents ft).refuses hj hcode hrest ?_
  rintro ⟨v, left⟩ hread
  rw [readDocument] at hread ⊢
  refine (extends_all ft _).value hread (by rw [List.length_append]; omega) ?_ rest
  intro hnumber
  cases bs with
  | nil => exact nomatch hread
  | cons b bs =>
      -- it starts as the document does
      obtain ⟨b', bs', htext, hb'⟩ := @opens_of_selfDelimiting _ ft j hj
      rw [htext, List.cons_append] at hcode
      obtain ⟨rfl, -⟩ := List.cons.inj hcode
      exact absurd (hnumber.symm.trans (isNumber_of_opening hb' hread)) (by decide)

/-- **Documents, and part of one.** The reader reads the documents and leaves the part. -/
theorem readWhile_documents (ft : FloatText F) {documents : List (Json F)}
    (hdocuments : ∀ j ∈ documents, j ∈ SelfDelimiting) {tail : Bytes}
    (htail : tail = [] ∨ ∃ j ∈ SelfDelimiting, ∃ rest ≠ [], tail ++ rest = text ft j) {n : ℕ}
    (hn : documents.length ≤ n) :
    readWhile (readDocument ft) n ((documents.map (text ft)).flatten ++ tail) =
      (documents.map (Json.reread ft.reread), tail) := by
  apply (reads_documents ft).readWhile_flatten hdocuments _ hn
  rcases htail with rfl | ⟨j, hj, rest, hrest, hcode⟩
  · rfl
  · exact readDocument_refuses ft hj hcode hrest

end

end CmsProxy.Prefixes
