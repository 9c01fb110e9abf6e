/-
`scripts/send_test_packet.py`: the encoder of the test datagrams.

The script packs its arguments with `struct`: integers big-endian and unsigned,
where a value that does not fit raises `struct.error`, and floats as binary32. Its
integers are unbounded, so a field masked with `& 0xFFFF` always fits and one
that is not masked may not. A payload is a `bytearray` of zeros that is filled at
offsets, or one `struct.pack`; the header goes in front of it.

`time.time()` is what the two builders that call it take as an argument. A float
argument is the finite binary32 that `struct` packs for it, and the text a string
of Unicode scalar values, so there is nothing for `errors="ignore"` to drop.
-/
import CmsProxy.JsonValue
import CmsProxy.Layout

set_option autoImplicit false

namespace CmsProxy.Encoder

open BigEndian JsonValue Layout

/-! ## `struct` -/

/-- One unsigned integer of `w` bytes; `none` is `struct.error`. -/
def pack (w : ℕ) (v : ℤ) : Option Bytes :=
  if 0 ≤ v ∧ v < 256 ^ w then some (toBytes w v.toNat) else none

/-- `struct.pack`, of the widths and values in `fields`. -/
def struct_pack (fields : List (ℕ × ℤ)) : Option Bytes :=
  (fields.mapM fun f => pack f.1 f.2).map List.flatten

/-- `struct.pack_into`, of one integer of `w` bytes. -/
def pack_into (w : ℕ) (payload : Bytes) (offset : ℕ) (v : ℤ) : Option Bytes :=
  if offset + w ≤ payload.length then (pack w v).map (memcpy payload offset) else none

/-- A finite binary32, by its bits. -/
structure FiniteFloat where
  bits : UInt32
  finite : bits.toNat / 2 ^ 23 % 2 ^ 8 ≠ 255

/-- `struct.pack_into(">f", ..)`. -/
def pack_float_into (payload : Bytes) (offset : ℕ) (v : FiniteFloat) : Option Bytes :=
  pack_into 4 payload offset v.bits.toNat

/-! ## The arguments -/

/-- `0.0`. -/
def FiniteFloat.zero : FiniteFloat := ⟨0, by decide⟩

/-- The parsed command line with its defaults, less what only the socket needs. -/
structure Args where
  message_id : ℤ := 1679949825
  sender : ℕ := 2
  lrad_id : ℤ := 1
  configuration : ℤ := 0
  cueing_type : ℤ := 1
  cstn : ℤ := 1
  kinematics_type : ℤ := 2
  x : FiniteFloat := .zero
  y : FiniteFloat := .zero
  z : FiniteFloat := .zero
  vx : FiniteFloat := .zero
  vy : FiniteFloat := .zero
  vz : FiniteFloat := .zero
  action_id : ℤ := 0
  audio_mode_validity : ℤ := 1
  volume_level : ℤ := 0
  audio_volume_db : FiniteFloat := .zero
  mute : ℤ := 0
  audio_mode : ℤ := 0
  recorded_message_id : ℤ := 0
  recorded_language : ℤ := 0
  recorded_loop : ℤ := 0
  free_text_language_in : ℤ := 0
  free_text_language_out : ℤ := 0
  free_text_message : String := ""
  free_text_loop : ℤ := 0
  laser_mode_validity : ℤ := 1
  laser_mode : ℤ := 0
  light_mode_validity : ℤ := 1
  light_power : ℤ := 0
  light_zoom : ℤ := 0
  lrf_mode_validity : ℤ := 1
  lrf_on_off : ℤ := 0
  camera_zoom_validity : ℤ := 1
  camera_zoom : ℤ := 0
  horizontal_reference_validity : ℤ := 1
  horizontal_reference : ℤ := 0

/-- `time.time()`, split as the builders split it. -/
structure Clock where
  seconds : ℤ
  microseconds : ℤ

/-! ## The builders -/

/-- `MESSAGES`: the two messages whose payload is one `struct.pack`. -/
def MESSAGES (message_id : ℤ) : Option (ℤ → ℤ → Option Bytes) :=
  if message_id = 1679949825 then
    some fun lrad_id configuration => struct_pack [(4, 0), (2, lrad_id), (2, configuration)]
  else if message_id = 1679949826 then
    some fun lrad_id _ => struct_pack [(4, 0), (2, lrad_id)]
  else none

/-- `build_cueing_order_payload`. -/
def build_cueing_order_payload (args : Args) (now : Clock) : Option Bytes := do
  let payload := List.replicate 48 0
  let payload ← pack_into 4 payload 0 0
  let payload ← pack_into 2 payload 4 args.lrad_id
  let payload ← pack_into 2 payload 6 args.cueing_type
  let payload ← pack_into 4 payload 8 args.cstn
  let payload ← pack_into 4 payload 12 now.seconds
  let payload ← pack_into 4 payload 16 now.microseconds
  let payload ← pack_into 2 payload 20 args.kinematics_type
  let payload ← pack_float_into payload 24 args.x
  let payload ← pack_float_into payload 28 args.y
  let payload ←
    if args.kinematics_type = 1 ∨ args.kinematics_type = 2 then
      pack_float_into payload 32 args.z
    else some payload
  if args.kinematics_type = 1 then do
    let payload ← pack_float_into payload 36 args.vx
    let payload ← pack_float_into payload 40 args.vy
    pack_float_into payload 44 args.vz
  else if args.kinematics_type = 3 then do
    let payload ← pack_float_into payload 32 args.vx
    pack_float_into payload 36 args.vy
  else some payload

/-- `v & 0xFFFF`. -/
def mask16 (v : ℤ) : ℤ := v % 2 ^ 16

/-- `v & 0xFFFFFFFF`. -/
def mask32 (v : ℤ) : ℤ := v % 2 ^ 32

/-- The text as it is put into the payload: 768 bytes at most. -/
def text_bytes (args : Args) : Bytes := (str args.free_text_message).take 768

/-- `build_emission_control_payload`. -/
def build_emission_control_payload (args : Args) : Option Bytes := do
  let payload := List.replicate 822 0
  let payload ← pack_into 4 payload 0 (mask32 args.action_id)
  let payload ← pack_into 2 payload 4 (mask16 args.lrad_id)
  let payload ← pack_into 2 payload 6 (mask16 args.audio_mode_validity)
  let payload ← pack_into 2 payload 8 (mask16 args.volume_level)
  let payload ← pack_float_into payload 10 args.audio_volume_db
  let payload ← pack_into 2 payload 14 (mask16 args.mute)
  let payload ← pack_into 2 payload 16 (mask16 args.audio_mode)
  let payload ← pack_into 4 payload 18 (mask32 args.recorded_message_id)
  let payload ← pack_into 2 payload 22 (mask16 args.recorded_language)
  let payload ← pack_into 2 payload 24 (mask16 args.recorded_loop)
  let payload ← pack_into 2 payload 26 (mask16 args.free_text_language_in)
  let payload ← pack_into 2 payload 28 (mask16 args.free_text_language_out)
  -- a slice of a `bytearray` is replaced by one of the same length
  let payload := memcpy payload 30 (text_bytes args)
  let payload ← pack_into 2 payload 798 (mask16 args.free_text_loop)
  let payload ← pack_into 2 payload 800 (mask16 args.laser_mode_validity)
  let payload ← pack_into 2 payload 802 (mask16 args.laser_mode)
  let payload ← pack_into 2 payload 804 (mask16 args.light_mode_validity)
  let payload ← pack_into 2 payload 806 (mask16 args.light_power)
  let payload ← pack_into 2 payload 808 (mask16 args.light_zoom)
  let payload ← pack_into 2 payload 810 (mask16 args.lrf_mode_validity)
  let payload ← pack_into 2 payload 812 (mask16 args.lrf_on_off)
  let payload ← pack_into 2 payload 814 (mask16 args.camera_zoom_validity)
  let payload ← pack_into 2 payload 816 (mask16 args.camera_zoom)
  let payload ← pack_into 2 payload 818 (mask16 args.horizontal_reference_validity)
  pack_into 2 payload 820 (mask16 args.horizontal_reference)

/-- `build_header`. -/
def build_header (message_id : ℤ) (payload : Bytes) (sender : ℕ) (now : Clock) : Option Bytes :=
  let payload_len := payload.length
  let timestamp_sec := now.seconds
  let timestamp_usec := now.microseconds
  struct_pack [(4, message_id), (4, ((sender <<< 16) ||| (payload_len &&& 0xFFFF) : ℕ)),
    (4, timestamp_sec), (4, timestamp_usec)]

/-- The payload of the message, as `main` chooses its builder. -/
def main_payload (args : Args) (now : Clock) : Option Bytes :=
  if args.message_id = 1679949827 then build_cueing_order_payload args now
  else if args.message_id = 1679949828 then build_emission_control_payload args
  else (MESSAGES args.message_id).bind fun builder => builder args.lrad_id args.configuration

/-- `main`, as far as the packet: the payload behind its header. The clock is read for
a cueing payload, and again for the header. -/
def main (args : Args) (now later : Clock) : Option Bytes := do
  let payload ← main_payload args now
  let header ← build_header args.message_id payload args.sender later
  return header ++ payload

/-! ## What is packed -/

theorem toNat_lt {w : ℕ} {v : ℤ} (h : 0 ≤ v ∧ v < 256 ^ w) : v.toNat < 256 ^ w := by
  zify
  rw [Int.toNat_of_nonneg h.1]
  exact h.2

theorem pack_eq_some {w : ℕ} {v : ℤ} {bytes : Bytes} :
    pack w v = some bytes ↔ (0 ≤ v ∧ v < 256 ^ w) ∧ bytes = toBytes w v.toNat := by
  unfold pack
  split_ifs with h
  · rw [Option.some.injEq, and_iff_right h, eq_comm]
  · simp only [h, false_and]

/-- A field of a payload: its width, its offset, its value. -/
structure Field where
  width : ℕ
  offset : ℕ
  value : ℤ

/-- The value of a field fits its width. -/
def Field.Packs (f : Field) : Prop := 0 ≤ f.value ∧ f.value < 256 ^ f.width

/-- What a field puts into the payload. -/
def Field.piece (f : Field) : Piece := ⟨f.offset, toBytes f.width f.value.toNat⟩

theorem Field.stop_piece (f : Field) : f.piece.stop = f.offset + f.width := by
  unfold Field.piece Piece.stop
  rw [length_toBytes]

theorem pack_into_eq_some {f : Field} {payload payload' : Bytes} :
    pack_into f.width payload f.offset f.value = some payload' ↔
      f.Packs ∧ f.piece.stop ≤ payload.length ∧ payload' = place payload [f.piece] := by
  rw [f.stop_piece]
  unfold pack_into
  split_ifs with h
  · rw [Option.map_eq_some_iff, and_iff_right h]
    constructor
    · rintro ⟨bytes, hbytes, rfl⟩
      obtain ⟨hpacks, rfl⟩ := pack_eq_some.mp hbytes
      exact ⟨hpacks, rfl⟩
    · rintro ⟨hpacks, rfl⟩
      exact ⟨_, pack_eq_some.mpr ⟨hpacks, rfl⟩, rfl⟩
  · simp only [h, false_and, and_false]

/-- Several fields, one after the other. -/
def pack_fields (payload : Bytes) (fields : List Field) : Option Bytes :=
  fields.foldlM (fun payload f => pack_into f.width payload f.offset f.value) payload

theorem pack_fields_nil (payload : Bytes) : pack_fields payload [] = some payload := rfl

theorem pack_fields_cons (payload : Bytes) (f : Field) (fields : List Field) :
    pack_fields payload (f :: fields) =
      (pack_into f.width payload f.offset f.value).bind fun payload => pack_fields payload fields :=
  rfl

/-- **Packing.** Fields can be packed when each of them fits, and then each has put
its piece into the payload. -/
theorem pack_fields_eq_some {fields : List Field} {payload payload' : Bytes}
    (h : pack_fields payload fields = some payload') :
    (∀ f ∈ fields, f.Packs) ∧ (∀ p ∈ fields.map Field.piece, p.stop ≤ payload.length) ∧
      payload' = place payload (fields.map Field.piece) := by
  induction fields generalizing payload with
  | nil =>
      obtain rfl := Option.some.inj h
      exact ⟨List.forall_mem_nil _, List.forall_mem_nil _, rfl⟩
  | cons f fields ih =>
      obtain ⟨payload₁, hf, hfields⟩ := Option.bind_eq_some_iff.mp h
      obtain ⟨hpacks, hstop, rfl⟩ := pack_into_eq_some.mp hf
      obtain ⟨hpacks', hstop', rfl⟩ := ih hfields
      have hlen : (place payload [f.piece]).length = payload.length :=
        length_place (List.forall_mem_singleton.mpr hstop)
      rw [hlen] at hstop'
      refine ⟨List.forall_mem_cons.mpr ⟨hpacks, hpacks'⟩, ?_, rfl⟩
      exact List.forall_mem_cons.mpr ⟨hstop, hstop'⟩

/-- `struct.pack` concatenates the words. -/
theorem struct_pack_eq_some {fields : List (ℕ × ℤ)} {bytes : Bytes}
    (h : struct_pack fields = some bytes) :
    (∀ f ∈ fields, 0 ≤ f.2 ∧ f.2 < 256 ^ f.1) ∧
      bytes = (fields.map fun f => toBytes f.1 f.2.toNat).flatten := by
  unfold struct_pack at h
  obtain ⟨words, hwords, rfl⟩ := Option.map_eq_some_iff.mp h
  clear h
  induction fields generalizing words with
  | nil =>
      obtain rfl := Option.some.inj hwords
      exact ⟨List.forall_mem_nil _, rfl⟩
  | cons f fields ih =>
      rw [List.mapM_cons] at hwords
      obtain ⟨word, hword, hwords⟩ := Option.bind_eq_some_iff.mp hwords
      obtain ⟨rest, hrest, hwords⟩ := Option.bind_eq_some_iff.mp hwords
      obtain rfl := Option.some.inj hwords
      obtain ⟨hpacks, rfl⟩ := pack_eq_some.mp hword
      obtain ⟨hpacks', hflatten⟩ := ih rest hrest
      refine ⟨List.forall_mem_cons.mpr ⟨hpacks, hpacks'⟩, ?_⟩
      rw [List.flatten_cons, hflatten, List.map_cons, List.flatten_cons]

/-! ## The fields of the two payloads that are filled at offsets -/

/-- The fields of a cueing payload. What stands from 32 on depends on the kinematics type. -/
def cueingFields (args : Args) (now : Clock) : List Field :=
  [⟨4, 0, 0⟩, ⟨2, 4, args.lrad_id⟩, ⟨2, 6, args.cueing_type⟩, ⟨4, 8, args.cstn⟩,
      ⟨4, 12, now.seconds⟩, ⟨4, 16, now.microseconds⟩, ⟨2, 20, args.kinematics_type⟩,
      ⟨4, 24, args.x.bits.toNat⟩, ⟨4, 28, args.y.bits.toNat⟩] ++
    if args.kinematics_type = 1 then
      [⟨4, 32, args.z.bits.toNat⟩, ⟨4, 36, args.vx.bits.toNat⟩, ⟨4, 40, args.vy.bits.toNat⟩,
        ⟨4, 44, args.vz.bits.toNat⟩]
    else if args.kinematics_type = 2 then [⟨4, 32, args.z.bits.toNat⟩]
    else if args.kinematics_type = 3 then
      [⟨4, 32, args.vx.bits.toNat⟩, ⟨4, 36, args.vy.bits.toNat⟩]
    else []

theorem build_cueing_order_payload_eq (args : Args) (now : Clock) :
    build_cueing_order_payload args now =
      pack_fields (List.replicate 48 0) (cueingFields args now) := by
  unfold build_cueing_order_payload cueingFields pack_float_into
  by_cases h1 : args.kinematics_type = 1
  · simp only [h1, true_or, if_true, List.cons_append, List.nil_append, pack_fields_cons,
      pack_fields_nil, Option.bind_eq_bind, Option.bind_fun_some]
  by_cases h2 : args.kinematics_type = 2
  · simp only [h2, Int.reduceEq, or_true, if_true, if_false, List.cons_append, List.nil_append,
      pack_fields_cons, pack_fields_nil, Option.bind_eq_bind]
  -- from here on `z` is not packed, and `some payload` goes on with `payload`
  by_cases h3 : args.kinematics_type = 3
  · simp only [h3, Int.reduceEq, or_self, if_true, if_false, List.cons_append, List.nil_append,
      pack_fields_cons, pack_fields_nil, Option.bind_eq_bind, Option.bind_some,
      Option.bind_fun_some]
  · simp only [h1, h2, h3, or_self, if_false, List.append_nil, pack_fields_cons,
      pack_fields_nil, Option.bind_eq_bind, Option.bind_some]

/-- The fields of an emission-control payload in front of the text. -/
def emissionFields (args : Args) : List Field :=
  [⟨4, 0, mask32 args.action_id⟩, ⟨2, 4, mask16 args.lrad_id⟩,
    ⟨2, 6, mask16 args.audio_mode_validity⟩, ⟨2, 8, mask16 args.volume_level⟩,
    ⟨4, 10, args.audio_volume_db.bits.toNat⟩, ⟨2, 14, mask16 args.mute⟩,
    ⟨2, 16, mask16 args.audio_mode⟩, ⟨4, 18, mask32 args.recorded_message_id⟩,
    ⟨2, 22, mask16 args.recorded_language⟩, ⟨2, 24, mask16 args.recorded_loop⟩,
    ⟨2, 26, mask16 args.free_text_language_in⟩, ⟨2, 28, mask16 args.free_text_language_out⟩]

/-- And those behind it. -/
def emissionFields' (args : Args) : List Field :=
  [⟨2, 798, mask16 args.free_text_loop⟩, ⟨2, 800, mask16 args.laser_mode_validity⟩,
    ⟨2, 802, mask16 args.laser_mode⟩, ⟨2, 804, mask16 args.light_mode_validity⟩,
    ⟨2, 806, mask16 args.light_power⟩, ⟨2, 808, mask16 args.light_zoom⟩,
    ⟨2, 810, mask16 args.lrf_mode_validity⟩, ⟨2, 812, mask16 args.lrf_on_off⟩,
    ⟨2, 814, mask16 args.camera_zoom_validity⟩, ⟨2, 816, mask16 args.camera_zoom⟩,
    ⟨2, 818, mask16 args.horizontal_reference_validity⟩,
    ⟨2, 820, mask16 args.horizontal_reference⟩]

theorem build_emission_control_payload_eq (args : Args) :
    build_emission_control_payload args =
      (pack_fields (List.replicate 822 0) (emissionFields args)).bind fun payload =>
        pack_fields (memcpy payload 30 (text_bytes args)) (emissionFields' args) := by
  unfold build_emission_control_payload emissionFields emissionFields' pack_float_into
  simp only [pack_fields_cons, pack_fields_nil, Option.bind_eq_bind, Option.bind_assoc,
    Option.bind_fun_some]

/-! ## Reading what was packed -/

/-- Fields that do not overlap are pieces that do not. -/
theorem ordered_fields {fields : List Field}
    (h : (fields.map fun f => (f.offset, f.offset + f.width)).Pairwise fun p q => p.2 ≤ q.1) :
    Ordered (fields.map Field.piece) := by
  unfold Ordered
  rw [List.pairwise_map] at h ⊢
  apply h.imp
  intro f g hfg
  rwa [f.stop_piece]

/-- A field that was packed is read as its value. -/
theorem wordAt_field {buffer : Bytes} {pieces : List Piece}
    (hinside : ∀ p ∈ pieces, p.stop ≤ buffer.length) (hordered : Ordered pieces) {f : Field}
    (hf : f.piece ∈ pieces) (hpacks : f.Packs) :
    wordAt f.width f.offset (place buffer pieces) = f.value.toNat := by
  rw [wordAt_place hinside hordered hf, Nat.mod_eq_of_lt (toNat_lt hpacks)]

/-- **A header** is 16 bytes that begin with the message id and the length word. -/
theorem header_spec {message_id : ℤ} {payload header : Bytes} {sender : ℕ} {now : Clock}
    (h : build_header message_id payload sender now = some header) :
    header.length = 16 ∧ (0 ≤ message_id ∧ message_id < 2 ^ 32) ∧
      wordAt 4 0 (header ++ payload) = message_id.toNat ∧
      wordAt 4 4 (header ++ payload) = sender * 2 ^ 16 + payload.length % 2 ^ 16 := by
  obtain ⟨hpacks, rfl⟩ := struct_pack_eq_some h
  have hid := hpacks _ List.mem_cons_self
  have hword := hpacks _ (List.mem_cons_of_mem _ List.mem_cons_self)
  have hlow : payload.length &&& 0xFFFF = payload.length % 2 ^ 16 :=
    Nat.and_two_pow_sub_one_eq_mod _ 16
  -- the sender stands above the 16 bits of the length
  have hor : (sender <<< 16) ||| (payload.length &&& 0xFFFF) =
      sender * 2 ^ 16 + payload.length % 2 ^ 16 := by
    rw [hlow, ← Nat.shiftLeft_add_eq_or_of_lt (Nat.mod_lt _ (by norm_num)), Nat.shiftLeft_eq]
  rw [hor] at hword ⊢
  simp only [List.map_cons, List.map_nil, List.flatten_cons, List.flatten_nil, List.append_nil,
    List.append_assoc, List.length_append, length_toBytes]
  refine ⟨trivial, hid, ?_, ?_⟩
  · exact (wordAt_append [] _ 4 _).trans (Nat.mod_eq_of_lt (toNat_lt hid))
  · have hsecond := wordAt_append (toBytes 4 message_id.toNat)
      (toBytes 4 now.seconds.toNat ++ (toBytes 4 now.microseconds.toNat ++ payload)) 4
      (sender * 2 ^ 16 + payload.length % 2 ^ 16)
    rw [length_toBytes] at hsecond
    exact hsecond.trans (Nat.mod_eq_of_lt (toNat_lt hword))

/-- **A cueing payload** holds its fields. -/
theorem cueing_payload {args : Args} {now : Clock} {payload : Bytes}
    (h : build_cueing_order_payload args now = some payload) :
    payload.length = 48 ∧ ∀ f ∈ cueingFields args now,
      f.Packs ∧ wordAt f.width f.offset payload = f.value.toNat := by
  rw [build_cueing_order_payload_eq] at h
  obtain ⟨hpacks, hinside, rfl⟩ := pack_fields_eq_some h
  have hordered : Ordered ((cueingFields args now).map Field.piece) := by
    apply ordered_fields
    unfold cueingFields
    split_ifs <;> simp only [List.cons_append, List.nil_append, List.map_cons, List.map_nil] <;>
      decide
  refine ⟨(length_place hinside).trans List.length_replicate, ?_⟩
  intro f hf
  exact ⟨hpacks f hf, wordAt_field hinside hordered (List.mem_map_of_mem hf) (hpacks f hf)⟩

/-- The pieces of an emission-control payload. -/
def emissionPieces (args : Args) : List Piece :=
  (emissionFields args).map Field.piece ++
    ⟨30, text_bytes args⟩ :: (emissionFields' args).map Field.piece

/-- The text has its place between the two groups of fields. -/
theorem stop_emissionFields (args : Args) :
    ∀ p ∈ (emissionFields args).map Field.piece, p.stop ≤ 30 := by
  rw [List.forall_mem_map]
  simp only [Field.stop_piece]
  unfold emissionFields
  simp only [List.forall_mem_cons]
  decide

theorem offset_emissionFields' (args : Args) :
    ∀ p ∈ (emissionFields' args).map Field.piece, 798 ≤ p.offset := by
  rw [List.forall_mem_map]
  unfold Field.piece emissionFields'
  simp only [List.forall_mem_cons]
  decide

theorem length_text_bytes (args : Args) : (text_bytes args).length ≤ 768 := List.length_take_le _ _

theorem ordered_emissionPieces (args : Args) : Ordered (emissionPieces args) := by
  have hordered : Ordered ((emissionFields args).map Field.piece) := by
    apply ordered_fields
    unfold emissionFields
    simp only [List.map_cons, List.map_nil]
    decide
  have hordered' : Ordered ((emissionFields' args).map Field.piece) := by
    apply ordered_fields
    unfold emissionFields'
    simp only [List.map_cons, List.map_nil]
    decide
  have hbehind : ∀ p ∈ (emissionFields' args).map Field.piece,
      Piece.stop ⟨30, text_bytes args⟩ ≤ p.offset := fun p hp =>
    (Nat.add_le_add_left (length_text_bytes args) 30).trans (offset_emissionFields' args p hp)
  unfold Ordered emissionPieces
  rw [List.pairwise_append]
  refine ⟨hordered, List.pairwise_cons.mpr ⟨hbehind, hordered'⟩, ?_⟩
  intro p hp q hq
  apply (stop_emissionFields args p hp).trans
  rcases List.mem_cons.mp hq with rfl | hq
  · exact le_rfl
  · exact le_trans (by norm_num) (offset_emissionFields' args q hq)

/-- **An emission-control payload** holds its fields, and its text with zeros behind it. -/
theorem emission_payload {args : Args} {payload : Bytes}
    (h : build_emission_control_payload args = some payload) :
    payload.length = 822 ∧
      (∀ f ∈ emissionFields args ++ emissionFields' args,
        wordAt f.width f.offset payload = f.value.toNat) ∧
      slice 30 768 payload =
        text_bytes args ++ List.replicate (768 - (text_bytes args).length) 0 := by
  obtain ⟨buffer, hbuffer⟩ : ∃ buffer, buffer = List.replicate 822 (0 : UInt8) := ⟨_, rfl⟩
  have hlen : buffer.length = 822 := by rw [hbuffer, List.length_replicate]
  rw [build_emission_control_payload_eq, ← hbuffer] at h
  obtain ⟨front, hfront, hbehind⟩ := Option.bind_eq_some_iff.mp h
  obtain ⟨hpacks, hinside, hfront⟩ := pack_fields_eq_some hfront
  obtain ⟨hpacks', hinside', hpayload⟩ := pack_fields_eq_some hbehind
  have htext := length_text_bytes args
  have hstop : Piece.stop ⟨30, text_bytes args⟩ ≤ buffer.length := by
    show 30 + (text_bytes args).length ≤ buffer.length
    omega
  -- all pieces are placed into one buffer
  have hplaced : payload = place buffer (emissionPieces args) := by
    unfold emissionPieces
    rw [place_append, place_cons, ← hfront, hpayload]
  have hall : ∀ p ∈ emissionPieces args, p.stop ≤ buffer.length := by
    have hfront' : front.length = buffer.length := by rw [hfront, length_place hinside]
    rw [length_memcpy (by rwa [hfront']), hfront'] at hinside'
    exact List.forall_mem_append.mpr ⟨hinside, List.forall_mem_cons.mpr ⟨hstop, hinside'⟩⟩
  have hordered := ordered_emissionPieces args
  rw [hplaced]
  refine ⟨(length_place hall).trans hlen, ?_, ?_⟩
  · intro f hf
    unfold emissionPieces at hall hordered ⊢
    rcases List.mem_append.mp hf with hf | hf
    · exact wordAt_field hall hordered (List.mem_append_left _ (List.mem_map_of_mem hf))
        (hpacks f hf)
    · exact wordAt_field hall hordered (List.mem_append_right _ (List.mem_cons_of_mem _
        (List.mem_map_of_mem hf))) (hpacks' f hf)
  · -- the text, and what is left free behind it
    have hsplit : 768 = (text_bytes args).length + (768 - (text_bytes args).length) := by omega
    have hput : slice 30 (text_bytes args).length (place buffer (emissionPieces args)) =
        text_bytes args :=
      slice_place hall hordered (p := ⟨30, text_bytes args⟩)
        (List.mem_append_right _ List.mem_cons_self)
    rw [hsplit, slice_add, hput, slice_place_of_free hall, hbuffer, slice_replicate (by omega),
      ← hsplit]
    intro p hp
    rcases List.mem_append.mp hp with hp | hp
    · exact Or.inr ((stop_emissionFields args p hp).trans (Nat.le_add_right _ _))
    · rcases List.mem_cons.mp hp with rfl | hp
      · exact Or.inr le_rfl
      · exact Or.inl (le_trans (by omega) (offset_emissionFields' args p hp))

end CmsProxy.Encoder
