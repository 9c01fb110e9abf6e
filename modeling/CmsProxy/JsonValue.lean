/-
JSON documents as the proxy builds and inspects them.

The document type is the one `nlohmann::json` stores: signed, unsigned and
floating numbers are different alternatives, a string is a byte string (a
`std::string` need not be valid UTF-8, and one of the questions this
development answers is what happens when it is not), and an object is a
`std::map`, so its members are kept sorted by key and `operator[]` inserts or
replaces. The type of floating numbers is a parameter `F`.

Nothing here is about one particular document. The text of a document is the
next file's subject (`JsonText.lean`); this one is about the tree: building it,
looking a member up, which trees are well formed (`Sorted`), and which can be
serialized (`utf8Ok`).
-/
import CmsProxy.BigEndian

set_option autoImplicit false

namespace CmsProxy.JsonValue

open BigEndian (Bytes)

/-- The bytes of a string literal. -/
def str (s : String) : Bytes := s.toByteArray.data.toList

/-- A `nlohmann::json` value; the constructors carry the names of `value_t`. -/
inductive Json (F : Type) where
  | null
  | boolean (b : Bool)
  | number_integer (v : ℤ)
  | number_unsigned (v : ℕ)
  | number_float (v : F)
  | string (s : Bytes)
  | array (items : List (Json F))
  | object (members : List (Bytes × Json F))

variable {F : Type}

theorem str_injective : Function.Injective str := by
  intro s t h
  have hbytes : s.toByteArray = t.toByteArray := by
    apply ByteArray.ext
    apply Array.ext'
    exact h
  exact String.toByteArray_inj.mp hbytes

@[simp] theorem str_inj {s t : String} : str s = str t ↔ s = t := str_injective.eq_iff

/-! ## Objects are sorted maps -/

/-- `std::map::insert_or_assign` on a sorted member list. -/
def insertMember (k : Bytes) (v : Json F) : List (Bytes × Json F) → List (Bytes × Json F)
  | [] => [(k, v)]
  | (k', v') :: ms =>
      if k = k' then (k, v) :: ms
      else if k < k' then (k, v) :: (k', v') :: ms
      else (k', v') :: insertMember k v ms

/-- The value a member list gives a key. -/
def findMember (k : Bytes) : List (Bytes × Json F) → Option (Json F)
  | [] => none
  | (k', v) :: ms => if k = k' then some v else findMember k ms

/-- `j[key] = value`. `operator[]` turns `null` into an object and throws on the
other kinds, on which the converter never uses it. -/
def Json.set (k : Bytes) (v : Json F) : Json F → Json F
  | .null => .object [(k, v)]
  | .object ms => .object (insertMember k v ms)
  | j => j

/-- `{{"k", v}, ...}`: each pair is emplaced, so of two pairs with one key the
earlier stays. -/
def Json.ofMembers (ms : List (Bytes × Json F)) : Json F :=
  .object (ms.foldr (fun m acc => insertMember m.1 m.2 acc) [])

/-- `contains(key)` and `at(key)` together: `none` when the value is not an
object or has no such member. -/
def Json.find? (k : Bytes) : Json F → Option (Json F)
  | .object ms => findMember k ms
  | _ => none

/-- An inserted key is found, and every other key is found as before. No
ordering fact is needed: insertion only ever skips keys it differs from. -/
theorem findMember_insertMember (k k' : Bytes) (v : Json F) (ms : List (Bytes × Json F)) :
    findMember k (insertMember k' v ms) = if k = k' then some v else findMember k ms := by
  induction ms with
  | nil => simp only [insertMember, findMember]
  | cons m ms ih =>
      obtain ⟨key, w⟩ := m
      simp only [insertMember]
      by_cases heq : k' = key
      · -- the key is there already: its value is replaced
        subst heq
        rw [if_pos rfl]
        simp only [findMember]
        by_cases hk : k = k' <;> simp only [hk, if_true, if_false]
      · rw [if_neg heq]
        by_cases hlt : k' < key
        · rw [if_pos hlt, findMember]
        · -- the key lands further back, and what is skipped is another key
          rw [if_neg hlt, findMember, ih, findMember]
          by_cases hk : k = key
          · rw [if_pos hk, if_pos hk, if_neg (fun h => heq (h.symm.trans hk))]
          · rw [if_neg hk, if_neg hk]

/-- `operator[]` does not throw. -/
def Json.settable : Json F → Bool
  | .null => true
  | .object _ => true
  | _ => false

@[simp] theorem settable_null : (Json.null : Json F).settable = true := rfl

@[simp] theorem settable_set (k : Bytes) (v j : Json F) :
    (Json.set k v j).settable = j.settable := by
  cases j <;> rfl

@[simp] theorem find?_null (k : Bytes) : Json.find? k (.null : Json F) = none := rfl

/-- Looking up after an assignment. -/
@[simp] theorem find?_set (k k' : Bytes) (v j : Json F) :
    Json.find? k (Json.set k' v j)
      = if k = k' ∧ j.settable = true then some v else Json.find? k j := by
  cases j with
  | null => simp only [Json.set, Json.find?, findMember, settable_null, and_true]
  | object ms => simp only [Json.set, Json.find?, findMember_insertMember, Json.settable, and_true]
  | _ => simp only [Json.set, Json.settable, Bool.false_eq_true, and_false, if_false]

/-- Looking up in an initializer list is reading it from the left. -/
@[simp] theorem find?_ofMembers (k : Bytes) (ms : List (Bytes × Json F)) :
    Json.find? k (Json.ofMembers ms) = findMember k ms := by
  simp only [Json.ofMembers, Json.find?]
  induction ms with
  | nil => rfl
  | cons m ms ih => rw [List.foldr_cons, findMember_insertMember, ih, findMember]

theorem findMember_eq_none {k : Bytes} {ms : List (Bytes × Json F)} (h : k ∉ ms.map Prod.fst) :
    findMember k ms = none := by
  induction ms with
  | nil => rfl
  | cons m ms ih =>
      rw [List.map_cons, List.mem_cons, not_or] at h
      rw [findMember, if_neg h.1, ih h.2]

/-- An initializer list has the members it lists, and no others. -/
theorem findMember_foldr_eq_none {k : Bytes} {ms : List (Bytes × Json F)}
    (h : k ∉ ms.map Prod.fst) :
    findMember k (ms.foldr (fun m acc => insertMember m.1 m.2 acc) []) = none :=
  (find?_ofMembers k ms).trans (findMember_eq_none h)

/-- The value at the end of a path of keys. -/
def Json.at? : List Bytes → Json F → Option (Json F)
  | [], j => some j
  | k :: ks, j => (Json.find? k j).bind (Json.at? ks)

/-! ## Which documents can be serialized

`dump()` with its default error handler refuses a document with a string, or a
key, that is not valid UTF-8. Validity is Lean's own notion, the one its
`String` type carries as an invariant, so a literal is valid by construction. -/

/-- The bytes are the UTF-8 encoding of some text. -/
def validUtf8 (s : Bytes) : Bool := ByteArray.validateUTF8 ⟨s.toArray⟩

@[simp] theorem validUtf8_str (s : String) : validUtf8 (str s) = true := by
  have hs : (⟨(str s).toArray⟩ : ByteArray) = s.toByteArray := rfl
  rw [validUtf8, hs, ByteArray.validateUTF8_eq_true_iff]
  exact s.isValidUTF8

mutual
/-- Every string and every key of the document is valid UTF-8. -/
def Json.utf8Ok : Json F → Bool
  | .string s => validUtf8 s
  | .array xs => utf8OkItems xs
  | .object ms => utf8OkMembers ms
  | _ => true

def utf8OkItems : List (Json F) → Bool
  | [] => true
  | x :: xs => x.utf8Ok && utf8OkItems xs

def utf8OkMembers : List (Bytes × Json F) → Bool
  | [] => true
  | (k, v) :: ms => (validUtf8 k && v.utf8Ok) && utf8OkMembers ms
end

/-- A member with a key of its own adds its own condition. -/
theorem utf8OkMembers_insertMember {k : Bytes} (v : Json F) {ms : List (Bytes × Json F)}
    (h : findMember k ms = none) :
    utf8OkMembers (insertMember k v ms) = (validUtf8 k && v.utf8Ok && utf8OkMembers ms) := by
  induction ms with
  | nil => rfl
  | cons m ms ih =>
      obtain ⟨key, w⟩ := m
      simp only [findMember] at h
      split_ifs at h with hk
      rw [insertMember, if_neg hk]
      split_ifs
      · rfl
      · rw [utf8OkMembers, utf8OkMembers, ih h]
        ac_rfl

@[simp] theorem utf8Ok_set_null (k : Bytes) (v : Json F) :
    (Json.set k v .null).utf8Ok = (validUtf8 k && v.utf8Ok) := Bool.and_true _

@[simp] theorem utf8Ok_set {k : Bytes} (v : Json F) {j : Json F} (h : Json.find? k j = none) :
    (Json.set k v j).utf8Ok = ((!j.settable || (validUtf8 k && v.utf8Ok)) && j.utf8Ok) := by
  cases j with
  | object ms => exact utf8OkMembers_insertMember v h
  | _ => rfl

@[simp] theorem utf8Ok_ofMembers {ms : List (Bytes × Json F)} (h : (ms.map Prod.fst).Nodup) :
    (Json.ofMembers ms).utf8Ok = utf8OkMembers ms := by
  rw [Json.ofMembers, Json.utf8Ok]
  induction ms with
  | nil => rfl
  | cons m ms ih =>
      obtain ⟨key, w⟩ := m
      obtain ⟨hkey, hms⟩ := List.nodup_cons.mp h
      have hfresh := findMember_foldr_eq_none hkey
      rw [List.foldr_cons, utf8OkMembers_insertMember w hfresh, ih hms, utf8OkMembers]

theorem utf8OkItems_iff {xs : List (Json F)} :
    utf8OkItems xs = true ↔ ∀ x ∈ xs, x.utf8Ok = true := by
  induction xs with
  | nil => exact ⟨fun _ x hx => absurd hx List.not_mem_nil, fun _ => rfl⟩
  | cons x xs ih => rw [utf8OkItems, Bool.and_eq_true, ih, List.forall_mem_cons]

/-- What is found in a document that can be serialized can be. -/
theorem utf8Ok_of_find? {k : Bytes} {j v : Json F} (h : j.utf8Ok = true)
    (hv : Json.find? k j = some v) : v.utf8Ok = true := by
  cases j with
  | object ms =>
      rw [Json.utf8Ok] at h
      rw [Json.find?] at hv
      induction ms with
      | nil => exact nomatch hv
      | cons m ms ih =>
          obtain ⟨key, w⟩ := m
          rw [utf8OkMembers, Bool.and_eq_true, Bool.and_eq_true] at h
          rw [findMember] at hv
          split_ifs at hv with hk
          · rw [← Option.some.inj hv]
            exact h.1.2
          · exact ih h.2 hv
  | _ => exact nomatch hv

theorem utf8Ok_of_at? {ks : List Bytes} {j v : Json F} (h : j.utf8Ok = true)
    (hv : Json.at? ks j = some v) : v.utf8Ok = true := by
  induction ks generalizing j with
  | nil => exact Option.some.inj hv ▸ h
  | cons k ks ih =>
      obtain ⟨j', hj', hv'⟩ := Option.bind_eq_some_iff.mp hv
      exact ih (utf8Ok_of_find? h hj') hv'

/-! ## Well-formed documents

A `std::map` cannot hold its keys out of order or twice, so of the trees of the
type above only the sorted ones are `nlohmann::json` values. Every document the
converter builds is made with `set` and `ofMembers`, which keep the order. -/

/-- The keys of a member list are strictly increasing. -/
def KeysSorted (ms : List (Bytes × Json F)) : Prop := (ms.map Prod.fst).Pairwise (· < ·)

mutual
/-- Every object of the document has strictly increasing keys. -/
def Json.Sorted : Json F → Prop
  | .array xs => SortedItems xs
  | .object ms => KeysSorted ms ∧ SortedMembers ms
  | _ => True

def SortedItems : List (Json F) → Prop
  | [] => True
  | x :: xs => x.Sorted ∧ SortedItems xs

def SortedMembers : List (Bytes × Json F) → Prop
  | [] => True
  | (_, v) :: ms => v.Sorted ∧ SortedMembers ms
end

theorem sortedItems_iff {xs : List (Json F)} : SortedItems xs ↔ ∀ x ∈ xs, x.Sorted := by
  induction xs with
  | nil => exact ⟨fun _ x hx => absurd hx List.not_mem_nil, fun _ => trivial⟩
  | cons x xs ih => rw [SortedItems, ih, List.forall_mem_cons]

/-- The keys after an insertion are the old ones and the new one. -/
theorem mem_keys_insertMember {k x : Bytes} {v : Json F} {ms : List (Bytes × Json F)}
    (h : x ∈ (insertMember k v ms).map Prod.fst) : x = k ∨ x ∈ ms.map Prod.fst := by
  induction ms with
  | nil => simpa only [insertMember, List.map_cons, List.map_nil, List.mem_singleton,
      List.not_mem_nil, or_false] using h
  | cons m ms ih =>
      obtain ⟨key, w⟩ := m
      simp only [insertMember] at h
      -- replaced, put in front, or further back
      split_ifs at h with heq hlt
      · subst heq
        exact Or.inr h
      · simpa only [List.map_cons, List.mem_cons] using h
      · simp only [List.map_cons, List.mem_cons] at h ⊢
        rcases h with h | h
        · exact Or.inr (Or.inl h)
        · exact (ih h).imp_right Or.inr

theorem keysSorted_insertMember (k : Bytes) (v : Json F) {ms : List (Bytes × Json F)}
    (h : KeysSorted ms) : KeysSorted (insertMember k v ms) := by
  induction ms with
  | nil => exact List.pairwise_singleton _ _
  | cons m ms ih =>
      obtain ⟨key, w⟩ := m
      obtain ⟨hhead, htail⟩ := List.pairwise_cons.mp h
      simp only [insertMember]
      split_ifs with heq hlt
      · subst heq
        exact h
      · -- `k` lands in front of `key`, and every other key is larger still
        refine List.pairwise_cons.mpr ⟨?_, h⟩
        intro x hx
        rcases List.mem_cons.mp hx with rfl | hx
        · exact hlt
        · exact List.lt_trans hlt (hhead x hx)
      · -- `k` lands behind `key`, so it has to be the larger of the two
        have hgt : key < k :=
          (List.le_iff_lt_or_eq.mp (List.not_lt.mp hlt)).resolve_right (Ne.symm heq)
        refine List.pairwise_cons.mpr ⟨?_, ih htail⟩
        intro x hx
        rcases mem_keys_insertMember hx with rfl | hx
        · exact hgt
        · exact hhead x hx

/-- Inserting a new key only adds to the list. -/
theorem sublist_insertMember {k : Bytes} (v : Json F) {ms : List (Bytes × Json F)}
    (h : findMember k ms = none) : ms.Sublist (insertMember k v ms) := by
  induction ms with
  | nil => exact List.nil_sublist _
  | cons m ms ih =>
      obtain ⟨key, w⟩ := m
      simp only [findMember] at h
      split_ifs at h with hk
      rw [insertMember, if_neg hk]
      split_ifs
      · exact List.sublist_cons_self _ _
      · exact (ih h).cons_cons _

theorem keysSorted_insertMember_iff {k : Bytes} (v : Json F) {ms : List (Bytes × Json F)}
    (h : findMember k ms = none) : KeysSorted (insertMember k v ms) ↔ KeysSorted ms :=
  ⟨fun hs => hs.sublist ((sublist_insertMember v h).map _), keysSorted_insertMember k v⟩

theorem sortedMembers_insertMember_iff {k : Bytes} (v : Json F) {ms : List (Bytes × Json F)}
    (h : findMember k ms = none) :
    SortedMembers (insertMember k v ms) ↔ v.Sorted ∧ SortedMembers ms := by
  induction ms with
  | nil => exact Iff.rfl
  | cons m ms ih =>
      obtain ⟨key, w⟩ := m
      simp only [findMember] at h
      split_ifs at h with hk
      rw [insertMember, if_neg hk]
      split_ifs
      · exact Iff.rfl
      · rw [SortedMembers, SortedMembers, ih h, and_left_comm]

@[simp] theorem sorted_set_null (k : Bytes) (v : Json F) :
    (Json.set k v .null).Sorted ↔ v.Sorted :=
  (and_iff_right (List.pairwise_singleton _ _)).trans (and_iff_left trivial)

@[simp] theorem sorted_set {k : Bytes} (v : Json F) {j : Json F} (h : Json.find? k j = none) :
    (Json.set k v j).Sorted ↔ (j.settable = true → v.Sorted) ∧ j.Sorted := by
  cases j with
  | null =>
      rw [sorted_set_null, settable_null, forall_prop_of_true rfl]
      exact (and_iff_left trivial).symm
  | object ms =>
      rw [Json.set, Json.Sorted, Json.Sorted, keysSorted_insertMember_iff v h,
        sortedMembers_insertMember_iff v h, and_left_comm, Json.settable, forall_prop_of_true rfl]
  | _ => simp only [Json.set, Json.settable, Bool.false_eq_true, false_implies, true_and]

@[simp] theorem sorted_ofMembers {ms : List (Bytes × Json F)} (h : (ms.map Prod.fst).Nodup) :
    (Json.ofMembers ms).Sorted ↔ SortedMembers ms := by
  rw [Json.ofMembers, Json.Sorted]
  induction ms with
  | nil => exact and_iff_right List.Pairwise.nil
  | cons m ms ih =>
      obtain ⟨key, w⟩ := m
      obtain ⟨hkey, hms⟩ := List.nodup_cons.mp h
      have hfresh := findMember_foldr_eq_none hkey
      rw [List.foldr_cons, keysSorted_insertMember_iff w hfresh,
        sortedMembers_insertMember_iff w hfresh, and_left_comm, ih hms, SortedMembers]

/-! ## Plain documents

Documents with no other numbers than natural numbers that a `std::uint64_t` holds. -/

mutual
/-- There are no floats and no signed integers in the document. -/
def Json.Plain : Json F → Prop
  | .number_integer _ => False
  | .number_unsigned v => v < 2 ^ 64
  | .number_float _ => False
  | .array xs => PlainItems xs
  | .object ms => PlainMembers ms
  | _ => True

def PlainItems : List (Json F) → Prop
  | [] => True
  | x :: xs => x.Plain ∧ PlainItems xs

def PlainMembers : List (Bytes × Json F) → Prop
  | [] => True
  | (_, v) :: ms => v.Plain ∧ PlainMembers ms
end

theorem plainItems_iff {xs : List (Json F)} : PlainItems xs ↔ ∀ x ∈ xs, x.Plain := by
  induction xs with
  | nil => exact ⟨fun _ x hx => absurd hx List.not_mem_nil, fun _ => trivial⟩
  | cons x xs ih => rw [PlainItems, ih, List.forall_mem_cons]

theorem plainMembers_insertMember (k : Bytes) {v : Json F} {ms : List (Bytes × Json F)}
    (hv : v.Plain) (h : PlainMembers ms) : PlainMembers (insertMember k v ms) := by
  induction ms with
  | nil => exact ⟨hv, trivial⟩
  | cons m ms ih =>
      obtain ⟨key, w⟩ := m
      rw [insertMember]
      split_ifs
      · exact ⟨hv, h.2⟩
      · exact ⟨hv, h⟩
      · exact ⟨h.1, ih h.2⟩

theorem plain_ofMembers {ms : List (Bytes × Json F)} (h : PlainMembers ms) :
    (Json.ofMembers ms).Plain := by
  induction ms with
  | nil => exact trivial
  | cons m ms ih => exact plainMembers_insertMember m.1 h.1 (ih h.2)

/-! ## What a document is after a text round trip

Writing a document and parsing the text gives the same tree but for numbers: a
non-negative integer comes back as `number_unsigned` whatever it was stored as,
and a float comes back as whatever its text reads as (`none`: it was not finite
and was written as `null`). -/

mutual
/-- The document a serialized and parsed document becomes; `back` says what
becomes of a float. -/
def Json.reread (back : F → Option F) : Json F → Json F
  | .number_integer v => if v < 0 then .number_integer v else .number_unsigned v.toNat
  | .number_float f => (back f).elim .null .number_float
  | .array xs => .array (rereadItems back xs)
  | .object ms => .object (rereadMembers back ms)
  | j => j

def rereadItems (back : F → Option F) : List (Json F) → List (Json F)
  | [] => []
  | x :: xs => x.reread back :: rereadItems back xs

def rereadMembers (back : F → Option F) : List (Bytes × Json F) → List (Bytes × Json F)
  | [] => []
  | (k, v) :: ms => (k, v.reread back) :: rereadMembers back ms
end

mutual
/-- A plain document comes back as it was. -/
theorem reread_of_plain (back : F → Option F) (j : Json F) (h : j.Plain) :
    j.reread back = j := by
  cases j with
  | array xs => exact congrArg Json.array (rereadItems_of_plain back xs h)
  | object ms => exact congrArg Json.object (rereadMembers_of_plain back ms h)
  | number_integer _ => exact h.elim
  | number_float _ => exact h.elim
  | _ => rfl

theorem rereadItems_of_plain (back : F → Option F) (xs : List (Json F)) (h : PlainItems xs) :
    rereadItems back xs = xs := by
  cases xs with
  | nil => rfl
  | cons x xs =>
      rw [rereadItems, reread_of_plain back x h.1, rereadItems_of_plain back xs h.2]

theorem rereadMembers_of_plain (back : F → Option F) (ms : List (Bytes × Json F))
    (h : PlainMembers ms) : rereadMembers back ms = ms := by
  cases ms with
  | nil => rfl
  | cons m ms =>
      obtain ⟨key, w⟩ := m
      rw [rereadMembers, reread_of_plain back w h.1, rereadMembers_of_plain back ms h.2]
end

/-- A round trip keeps the members an object has. -/
theorem find?_reread (back : F → Option F) (k : Bytes) (j : Json F) :
    Json.find? k (j.reread back) = (Json.find? k j).map (Json.reread back) := by
  cases j with
  | object ms =>
      simp only [Json.reread, Json.find?]
      induction ms with
      | nil => rfl
      | cons m ms ih =>
          obtain ⟨key, w⟩ := m
          simp only [rereadMembers, findMember]
          by_cases hk : k = key
          · rw [if_pos hk, if_pos hk, Option.map_some]
          · rw [if_neg hk, if_neg hk, ih]
  | number_integer v =>
      simp only [Json.reread]
      split_ifs <;> rfl
  | number_float f =>
      simp only [Json.reread]
      cases back f <;> rfl
  | null => rfl
  | boolean b => rfl
  | number_unsigned v => rfl
  | string s => rfl
  | array xs => rfl

theorem at?_reread (back : F → Option F) (ks : List Bytes) (j : Json F) :
    Json.at? ks (j.reread back) = (Json.at? ks j).map (Json.reread back) := by
  induction ks generalizing j with
  | nil => rfl
  | cons k ks ih =>
      rw [Json.at?, Json.at?, find?_reread]
      cases Json.find? k j with
      | none => rfl
      | some v => exact ih v

end CmsProxy.JsonValue
