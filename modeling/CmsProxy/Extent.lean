/-
How far into a datagram the converter looks.

The header declares a payload length, and `parseHeader` checks that the datagram
is not shorter. Nothing else looks at the declared length: how much of a datagram
is interpreted follows from its kind and its size (`extent`). Bytes behind the
extent never matter (`convert_congr`). Bytes behind the declared payload do not
matter as long as the extent ends before them (`declared_payload_decides`); a
row of blocks is read to the end of the datagram instead
(`trailing_block_converted`).
-/
import CmsProxy.Orders
import CmsProxy.Reference

set_option autoImplicit false

namespace CmsProxy.Extent

open BigEndian Interfaces JsonValue Converter Orders
open Reference (linux datagram orderBytes)

/-- Where the coordinates of a kinematics type end, or else the fixed part. -/
def coordinatesEnd (kinematicsType : UInt16) : ℕ :=
  if kinematicsType = 1 ∨ kinematicsType = 2 then 52
  else if kinematicsType = 3 ∨ kinematicsType = 4 then 48
  else 38

/-- Where the part of a cueing order ends that is interpreted. -/
def cueingExtent (data : Bytes) : ℕ :=
  if coordinatesEnd (u16At data 36) ≤ data.length then coordinatesEnd (u16At data 36) else 38

/-- Where the part of a datagram ends that its handler looks at. -/
def extent (data : Bytes) : ℕ :=
  match messageKind data with
  | none => 16
  | some .change_configuration => 16 + 8 * blockCount data
  | some .cueing_order_cancellation => if 22 ≤ data.length then 22 else 16
  | some .cueing_order => if 38 ≤ data.length then cueingExtent data else 16
  | some .emission_control => if 838 ≤ data.length then 838 else 16

/-! ## Words of two datagrams that begin alike -/

section

variable {a b : Bytes} {m : ℕ}

theorem u16At_congr {offset : ℕ} (h : a.take m = b.take m) (hm : offset + 2 ≤ m) :
    u16At a offset = u16At b offset := by
  rw [u16At, u16At, wordAt_congr hm h]

theorem u32At_congr {offset : ℕ} (h : a.take m = b.take m) (hm : offset + 4 ≤ m) :
    u32At a offset = u32At b offset := by
  rw [u32At, u32At, wordAt_congr hm h]

theorem take_of_le {l : ℕ} (h : a.take m = b.take m) (hl : l ≤ m) : a.take l = b.take l := by
  have htake := congrArg (List.take l) h
  rwa [List.take_take, List.take_take, min_eq_left hl] at htake

end

/-- Two choices between the same two numbers come out alike. -/
theorem iff_of_ite_eq {p q : Prop} [Decidable p] [Decidable q] {k l : ℕ} (hne : k ≠ l)
    (h : (if p then k else l) = if q then k else l) : p ↔ q := by
  by_cases hp : p <;> by_cases hq : q <;> simp only [hp, hq, if_true, if_false] at h ⊢ <;> omega

theorem le_cueingExtent (data : Bytes) : 38 ≤ cueingExtent data := by
  rw [cueingExtent, coordinatesEnd]
  split_ifs <;> omega

/-! ## The handlers -/

section

variable {F : Type} [CFloat F] {a b : RawPacket} {rt : Runtime F} {snapshot : SystemStateSnapshot}

omit [CFloat F] in
theorem blocks_congr {a b : Bytes} (hcount : blockCount a = blockCount b)
    (h : a.take (16 + 8 * blockCount a) = b.take (16 + 8 * blockCount a)) :
    blocks a = blocks b := by
  rw [blocks, blocks, ← hcount]
  refine List.map_congr_left fun i hi => ?_
  -- the `i`-th block ends where the extent of `i + 1` blocks does
  have hi' : i < blockCount a := List.mem_range.mp hi
  rw [blockAt, blockAt, orderAt, orderAt, u32At_congr h (by omega), u16At_congr h (by omega),
    u16At_congr h (by omega)]

theorem emissionAt_congr {a b : Bytes} (h : a.take 838 = b.take 838) :
    emissionAt F a = emissionAt F b := by
  have htext : freeText a = freeText b := by
    -- the text is cut out of the 838 bytes
    have key : ∀ c : Bytes, freeText c = (((c.take 838).drop 46).take 768).takeWhile (· ≠ 0) := by
      intro c
      rw [freeText, List.drop_take, List.take_take]
      rfl
    rw [key a, key b, h]
  have h16 : ∀ offset, offset + 2 ≤ 838 → u16At a offset = u16At b offset :=
    fun _ => u16At_congr h
  have h32 : ∀ offset, offset + 4 ≤ 838 → u32At a offset = u32At b offset :=
    fun _ => u32At_congr h
  simp (disch := norm_num) only [emissionAt, htext, h16, h32]

/-- The coordinates are within the extent. -/
theorem coordinatesAt_congr (hkt : u16At a.data 36 = u16At b.data 36)
    (hextent : cueingExtent a.data = cueingExtent b.data)
    (h : a.data.take (cueingExtent a.data) = b.data.take (cueingExtent a.data)) :
    coordinatesAt F a.data (u16At a.data 36) = coordinatesAt F b.data (u16At a.data 36) := by
  have hf32 : ∀ offset, offset + 4 ≤ cueingExtent a.data →
      u32At a.data offset = u32At b.data offset := fun _ => u32At_congr h
  -- two equal extents are both the end of the coordinates, or both 38
  have hsizes := hextent
  rw [cueingExtent, cueingExtent, ← hkt] at hsizes
  rw [cueingExtent] at hf32
  rw [coordinatesAt, coordinatesAt]
  by_cases h12 : u16At a.data 36 = 1 ∨ u16At a.data 36 = 2
  · have hend : coordinatesEnd (u16At a.data 36) = 52 := if_pos h12
    rw [hend] at hsizes hf32
    rw [if_pos h12, if_pos h12]
    have hiff := iff_of_ite_eq (by norm_num) hsizes
    by_cases hsize : 52 ≤ a.data.length
    · have hsizeb := hiff.mp hsize
      rw [if_pos hsize] at hf32
      simp (disch := omega) only [if_pos hsize, if_pos hsizeb, hf32]
    · rw [if_neg hsize, if_neg (mt hiff.mpr hsize)]
  · rw [if_neg h12, if_neg h12]
    by_cases h34 : u16At a.data 36 = 3 ∨ u16At a.data 36 = 4
    · have hend : coordinatesEnd (u16At a.data 36) = 48 := by
        rw [coordinatesEnd, if_neg h12, if_pos h34]
      rw [hend] at hsizes hf32
      rw [if_pos h34, if_pos h34]
      have hiff := iff_of_ite_eq (by norm_num) hsizes
      by_cases hsize : 48 ≤ a.data.length
      · have hsizeb := hiff.mp hsize
        rw [if_pos hsize] at hf32
        simp (disch := omega) only [if_pos hsize, if_pos hsizeb, hf32]
      · rw [if_neg hsize, if_neg (mt hiff.mpr hsize)]
    · rw [if_neg h34, if_neg h34]

omit [CFloat F] in
/-- The cancellation handler looks at 22 bytes, if there are 22. -/
theorem cancellation_handler_congr
    (hextent : (if 22 ≤ a.data.length then 22 else 16) = if 22 ≤ b.data.length then 22 else 16)
    (h : a.data.take (if 22 ≤ a.data.length then 22 else 16) =
      b.data.take (if 22 ≤ a.data.length then 22 else 16)) :
    handle_CS_LRAS_cueing_order_cancellation_INS rt a snapshot [] =
      handle_CS_LRAS_cueing_order_cancellation_INS rt b snapshot [] := by
  have hiff := iff_of_ite_eq (by norm_num) hextent
  rw [handle_cancellation_spec, handle_cancellation_spec]
  by_cases hsize : 22 ≤ a.data.length
  · have hsizeb := hiff.mp hsize
    rw [if_pos hsize] at h
    have hlrad : u16At a.data 20 = u16At b.data 20 := u16At_congr h (by norm_num)
    rw [if_pos hsize, if_pos hsizeb, hlrad]
  · rw [if_neg hsize, if_neg (mt hiff.mpr hsize)]

/-- The cueing handler looks at the fixed part and, if it is there, at the coordinates. -/
theorem cueing_handler_congr
    (hextent : (if 38 ≤ a.data.length then cueingExtent a.data else 16) =
      if 38 ≤ b.data.length then cueingExtent b.data else 16)
    (h : a.data.take (if 38 ≤ a.data.length then cueingExtent a.data else 16) =
      b.data.take (if 38 ≤ a.data.length then cueingExtent a.data else 16)) :
    handle_CS_LRAS_cueing_order_INS rt a snapshot [] =
      handle_CS_LRAS_cueing_order_INS rt b snapshot [] := by
  have hle := le_cueingExtent a.data
  have hle' := le_cueingExtent b.data
  rw [handle_cueing_spec, handle_cueing_spec]
  by_cases hsize : 38 ≤ a.data.length
  · -- an extent of 38 or more tells that the fixed part is there
    have hsizeb : 38 ≤ b.data.length := by
      by_contra hb
      rw [if_pos hsize, if_neg hb] at hextent
      omega
    rw [if_pos hsize, if_pos hsizeb] at hextent
    rw [if_pos hsize] at h
    have h16 : ∀ offset, offset + 2 ≤ 38 → u16At a.data offset = u16At b.data offset :=
      fun _ hoffset => u16At_congr h (by omega)
    have h32 : ∀ offset, offset + 4 ≤ 38 → u32At a.data offset = u32At b.data offset :=
      fun _ hoffset => u32At_congr h (by omega)
    have hkt := h16 36 (by norm_num)
    have hcoordinates := @coordinatesAt_congr F _ a b hkt hextent h
    rw [hkt] at hcoordinates
    rw [if_pos hsize, if_pos hsizeb, cueingMessage, cueingMessage, cueingMeta, cueingMeta]
    simp (disch := omega) only [h16, h32, hcoordinates]
  · have hsizeb : ¬ 38 ≤ b.data.length := by
      intro hb
      rw [if_neg hsize, if_pos hb] at hextent
      omega
    rw [if_neg hsize, if_neg hsizeb]

/-- The emission-control handler looks at 838 bytes, if there are 838. -/
theorem emission_handler_congr
    (hextent : (if 838 ≤ a.data.length then 838 else 16) =
      if 838 ≤ b.data.length then 838 else 16)
    (h : a.data.take (if 838 ≤ a.data.length then 838 else 16) =
      b.data.take (if 838 ≤ a.data.length then 838 else 16)) :
    handle_CS_LRAS_emission_control_INS rt a snapshot [] =
      handle_CS_LRAS_emission_control_INS rt b snapshot [] := by
  have hiff := iff_of_ite_eq (by norm_num) hextent
  rw [handle_emission_control_spec, handle_emission_control_spec]
  by_cases hsize : 838 ≤ a.data.length
  · have hsizeb := hiff.mp hsize
    rw [if_pos hsize] at h
    have hlrad : u16At a.data 20 = u16At b.data 20 := u16At_congr h (by norm_num)
    rw [if_pos hsize, if_pos hsizeb, emissionAt_congr h, hlrad]
  · rw [if_neg hsize, if_neg (mt hiff.mpr hsize)]

/-- A handler is a function of the extent. -/
theorem handler_congr {k : Kind} (hka : messageKind a.data = some k)
    (hkb : messageKind b.data = some k) (hextent : extent a.data = extent b.data)
    (h : a.data.take (extent a.data) = b.data.take (extent a.data)) :
    handlerOf F k rt a snapshot [] = handlerOf F k rt b snapshot [] := by
  rw [extent, extent, hka, hkb] at hextent
  rw [extent, hka] at h
  cases k with
  | change_configuration =>
      -- equal extents, so equal numbers of blocks
      have hcount : blockCount a.data = blockCount b.data := by
        simp only at hextent
        omega
      rw [handlerOf, handle_change_configuration_spec, handle_change_configuration_spec,
        blocks_congr hcount h]
  | cueing_order_cancellation =>
      rw [handlerOf]
      exact cancellation_handler_congr hextent h
  | cueing_order =>
      rw [handlerOf]
      exact cueing_handler_congr hextent h
  | emission_control =>
      rw [handlerOf]
      exact emission_handler_congr hextent h

/-- **The extent.** Two datagrams with one kind and one extent that agree up to
there are converted alike. -/
theorem convert_congr (hkind : messageKind a.data = messageKind b.data)
    (hextent : extent a.data = extent b.data)
    (h : a.data.take (extent a.data) = b.data.take (extent a.data)) :
    convert rt a snapshot = convert rt b snapshot := by
  rw [convert_eq, convert_eq]
  cases hka : messageKind a.data with
  | none => rw [← hkind, hka]
  | some k =>
      have hkb := hkind.symm.trans hka
      rw [hkb]
      simp only
      rw [handler_congr hka hkb hextent h]

/-! ## The declared payload -/

/-- Two datagrams whose headers are in order and alike have one kind. -/
theorem messageKind_congr {a b : Bytes} {m : ℕ} (ha : HeaderOk a) (hb : HeaderOk b)
    (h : a.take m = b.take m) (hm : 16 ≤ m) : messageKind a = messageKind b := by
  rw [messageKind, messageKind, if_pos ha, if_pos hb, u32At_congr h (by omega)]

/-- The coordinates are behind the declared payload, or both datagrams have them. -/
theorem cueingExtent_congr {a b : Bytes} {m : ℕ} (hkt : u16At a 36 = u16At b 36)
    (hla : m ≤ a.length) (hlb : m ≤ b.length) (hea : cueingExtent a ≤ m)
    (heb : cueingExtent b ≤ m) : cueingExtent a = cueingExtent b := by
  rw [cueingExtent] at hea heb ⊢
  rw [cueingExtent, ← hkt]
  rw [← hkt] at heb
  split_ifs at hea heb ⊢ <;> omega

/-- An extent that ends within the declared payload depends on nothing behind it. -/
theorem extent_congr {a b : Bytes} {n : ℕ} (hkind : messageKind a = messageKind b)
    (hla : 16 + n ≤ a.length) (hlb : 16 + n ≤ b.length)
    (h : a.take (16 + n) = b.take (16 + n)) (hea : extent a ≤ 16 + n) (heb : extent b ≤ 16 + n) :
    extent a = extent b := by
  simp only [extent, ← hkind] at hea heb ⊢
  -- both datagrams have the same kind, and what is left are numbers
  generalize messageKind a = kind at hea heb ⊢
  cases kind with
  | none => rfl
  | some k =>
      cases k with
      | change_configuration =>
          -- all blocks of both end within the declared payload, which both contain
          have hcounta : blockCount a = (a.length - 16) / 8 := rfl
          have hcountb : blockCount b = (b.length - 16) / 8 := rfl
          simp only at hea heb ⊢
          omega
      | cueing_order_cancellation =>
          simp only at hea heb ⊢
          split_ifs at hea heb ⊢ <;> omega
      | cueing_order =>
          have hle := le_cueingExtent a
          have hle' := le_cueingExtent b
          simp only at hea heb ⊢
          by_cases hsize : 38 ≤ a.length
          · rw [if_pos hsize] at hea ⊢
            have hsizeb : 38 ≤ b.length := by omega
            rw [if_pos hsizeb] at heb ⊢
            -- the kinematics type is in the fixed part, so within the declared payload
            have hkt : u16At a 36 = u16At b 36 := u16At_congr h (by omega)
            exact cueingExtent_congr hkt hla hlb hea heb
          · rw [if_neg hsize] at hea ⊢
            have hsizeb : ¬ 38 ≤ b.length := by
              intro hb
              rw [if_pos hb] at heb
              omega
            rw [if_neg hsizeb]
      | emission_control =>
          simp only at hea heb ⊢
          split_ifs at hea heb ⊢ <;> omega

/-- **The declared payload decides** for datagrams of which nothing behind it is
looked at: with one declared length, and agreeing as far as it reaches, they are
converted alike. -/
theorem declared_payload_decides (ha : HeaderOk a.data) (hb : HeaderOk b.data)
    (hn : declaredLength a.data = declaredLength b.data)
    (h : a.data.take (16 + declaredLength a.data) = b.data.take (16 + declaredLength a.data))
    (hea : extent a.data ≤ 16 + declaredLength a.data)
    (heb : extent b.data ≤ 16 + declaredLength a.data) :
    convert rt a snapshot = convert rt b snapshot := by
  have hkind := messageKind_congr ha hb h (by omega)
  rw [HeaderOk, ← hn] at hb
  have hextent := extent_congr hkind ha hb h hea heb
  exact convert_congr hkind hextent (take_of_le h hea)

/-- A block, declared as such, with `rest` behind it. -/
def blockThen (rest : Bytes) : RawPacket where
  data := (datagram 1679949825 (orderBytes 7 1 1)).data ++ rest

/-- Less than a block behind the declared payload. -/
theorem declared_payload_decides_block :
    convert linux (blockThen []) {} = convert linux (blockThen [1, 2, 3]) {} :=
  declared_payload_decides (by decide) (by decide) (by decide) (by decide) (by decide) (by decide)

/-- A block behind the declared payload is an order. -/
theorem trailing_block_converted :
    HeaderOk (blockThen []).data ∧ HeaderOk (blockThen (orderBytes 8 2 1)).data ∧
    declaredLength (blockThen []).data = 8 ∧
    declaredLength (blockThen (orderBytes 8 2 1)).data = 8 ∧
    (blockThen []).data.take 24 = (blockThen (orderBytes 8 2 1)).data.take 24 ∧
    (convert linux (blockThen []) {}).toOption.map (·.packets) ≠
      (convert linux (blockThen (orderBytes 8 2 1)) {}).toOption.map (·.packets) := by
  refine ⟨by decide, by decide, by decide, by decide, by decide, fun heq => ?_⟩
  -- one packet against two
  have hone : (convert linux (blockThen []) {}).toOption.map (·.packets.length) = some 1 := by
    decide
  have htwo : (convert linux (blockThen (orderBytes 8 2 1)) {}).toOption.map (·.packets.length)
      = some 2 := by decide
  have hlengths := congrArg (Option.map List.length) heq
  rw [Option.map_map, Option.map_map] at hlengths
  exact absurd (hone.symm.trans (hlengths.trans htwo)) (by decide)

end

end CmsProxy.Extent
