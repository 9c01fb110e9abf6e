/-
The converter undoes the encoder.

`Encoder.lean` writes fields at offsets of a payload and a header in front of it;
the converter reads words at offsets of the datagram. The two meet in the words:
whatever field was packed at an offset is read 16 bytes further on
(`u16At_field`, `u32At_field`). From there it is bookkeeping, one message after
the other, until every argument is found in the document that is sent
(`encoded_is_converted`).

The free text is the one field without a width. It has an area of 768 bytes, is
cut to fit it, and ends at the first NUL or with the area. A text that fits and
has no NUL is read as it was given, also when it fills the area.
-/
import CmsProxy.Acceptance
import CmsProxy.Commands
import CmsProxy.Encoder

set_option autoImplicit false

namespace CmsProxy.RoundTrip

open BigEndian Interfaces JsonValue CueingMath Converter Orders Layout Encoder
open Acceptance (cueing_angles_returns cueing_order_json_returns serialize_returns_iff)
open Commands (modeOf change_configuration_mode)
open Binary32 (toBits_ofBits)
open CueingBounds (Atan2Range)
open Reference (linux linux_jsonLaws linux_atan2Range)

/-! ## Text without NUL -/

/-- The text fits its area and has no NUL. -/
structure TextFits (text : String) : Prop where
  length_le : (str text).length ≤ 768
  no_nul : '\x00' ∉ text.toList

theorem ofNat_ne_zero {n : ℕ} (hpos : 0 < n) (hlt : n < 256) : UInt8.ofNat n ≠ 0 := by
  intro h
  have htoNat := congrArg UInt8.toNat h
  rw [UInt8.toNat_ofNat', Nat.mod_eq_of_lt hlt] at htoNat
  exact hpos.ne' htoNat

/-- A NUL byte is the encoding of a NUL. -/
theorem eq_nul_of_mem {c : Char} (h : 0 ∈ String.utf8EncodeChar c) : c = '\x00' := by
  by_contra hne
  have hpos : 0 < c.val.toNat := by
    rw [Nat.pos_iff_ne_zero]
    intro hzero
    exact hne (Char.ext (UInt32.toNat_inj.mp hzero))
  unfold String.utf8EncodeChar at h
  dsimp only at h
  -- only the encoding of a NUL has no byte with a bit set
  split_ifs at h <;> simp only [List.mem_cons, List.not_mem_nil, or_false] at h
  · exact ofNat_ne_zero hpos (by omega) h.symm
  · rcases h with h | h <;> exact ofNat_ne_zero (by omega) (by omega) h.symm
  · rcases h with h | h | h <;> exact ofNat_ne_zero (by omega) (by omega) h.symm
  · rcases h with h | h | h | h <;> exact ofNat_ne_zero (by omega) (by omega) h.symm

theorem nul_notMem_str {text : String} (h : '\x00' ∉ text.toList) : 0 ∉ str text := by
  intro hmem
  have hbytes : str text = text.toList.flatMap String.utf8EncodeChar := by
    unfold str
    rw [← String.utf8Encode_toList, List.utf8Encode, List.data_toByteArray]
  rw [hbytes] at hmem
  obtain ⟨c, hc, hzero⟩ := List.mem_flatMap.mp hmem
  exact h (eq_nul_of_mem hzero ▸ hc)

/-- What is read of the text: up to the first NUL of what was sent. -/
def sentText (args : Args) : Bytes := (text_bytes args).takeWhile (· ≠ 0)

theorem sentText_of_fits {args : Args} (h : TextFits args.free_text_message) :
    sentText args = str args.free_text_message := by
  unfold sentText text_bytes
  rw [List.take_of_length_le h.length_le, List.takeWhile_eq_self_iff]
  intro b hb
  have hne : b ≠ 0 := ne_of_mem_of_not_mem hb (nul_notMem_str h.no_nul)
  exact decide_eq_true hne

/-- The zeros behind a text end it. -/
theorem takeWhile_append_zeros (text : Bytes) (n : ℕ) :
    (text ++ List.replicate n 0).takeWhile (· ≠ 0) = text.takeWhile (· ≠ 0) := by
  have hzeros : (List.replicate n (0 : UInt8)).takeWhile (· ≠ 0) = [] := by
    cases n <;> rfl
  rw [List.takeWhile_append, hzeros, List.append_nil]
  split_ifs with hall
  · exact ((List.takeWhile_prefix _).eq_of_length hall).symm
  · rfl

/-! ## The words of a datagram -/

section

variable {header payload : Bytes}

/-- A field of the payload is read 16 bytes further on. -/
theorem wordAt_payload (hlen : header.length = 16) (w offset : ℕ) :
    wordAt w (16 + offset) (header ++ payload) = wordAt w offset payload := by
  rw [wordAt_eq_slice, slice_append_right (by omega), hlen, Nat.add_sub_cancel_left,
    wordAt_eq_slice]

theorem u16At_field (hlen : header.length = 16) {offset : ℕ} {v : ℤ} (hv : 0 ≤ v ∧ v < 256 ^ 2)
    (h : wordAt 2 offset payload = v.toNat) :
    u16At (header ++ payload) (16 + offset) = UInt16.ofInt v := by
  have hmod : v % 2 ^ 16 = v := Int.emod_eq_of_lt hv.1 hv.2
  rw [u16At, wordAt_payload hlen, h, UInt16.ofInt, hmod]

theorem u32At_field (hlen : header.length = 16) {offset : ℕ} {v : ℤ} (hv : 0 ≤ v ∧ v < 256 ^ 4)
    (h : wordAt 4 offset payload = v.toNat) :
    u32At (header ++ payload) (16 + offset) = UInt32.ofInt v := by
  have hmod : v % 2 ^ 32 = v := Int.emod_eq_of_lt hv.1 hv.2
  rw [u32At, wordAt_payload hlen, h, UInt32.ofInt, hmod]

theorem ofInt_bits (b : UInt32) : UInt32.ofInt b.toNat = b := by
  have hmod : (b.toNat : ℤ) % 2 ^ 32 = b.toNat := by
    have hlt := b.toNat_lt
    omega
  unfold UInt32.ofInt
  rw [hmod, Int.toNat_natCast, UInt32.ofNat_toNat]

/-- The low 16 bits of the length word are the declared length. -/
theorem declaredLength_of_word {data : Bytes} {high low : ℕ}
    (h : wordAt 4 4 data = high * 2 ^ 16 + low % 2 ^ 16) : declaredLength data = low % 2 ^ 16 := by
  have hmask : ∀ n : ℕ, n &&& 0xFFFF = n % 2 ^ 16 := fun n => Nat.and_two_pow_sub_one_eq_mod n 16
  unfold declaredLength u32At
  rw [UInt32.toNat_toUInt16, UInt32.toNat_and, UInt32.toNat_ofNat', h]
  show (_ &&& 0xFFFF) % 2 ^ 16 = _
  rw [hmask]
  omega

/-- The converter accepts the header of a payload. -/
theorem messageKind_datagram {message_id : ℤ} {sender : ℕ} {now : Clock}
    (hheader : build_header message_id payload sender now = some header) :
    messageKind (header ++ payload) = kindOf (UInt32.ofInt message_id) := by
  obtain ⟨hlen, hid, hword₀, hword₁⟩ := header_spec hheader
  have hdeclared := declaredLength_of_word hword₁
  have hok : HeaderOk (header ++ payload) := by
    unfold HeaderOk
    rw [hdeclared, List.length_append, hlen]
    exact Nat.add_le_add_left (Nat.mod_le _ _) 16
  have hid' : u32At (header ++ payload) 0 = UInt32.ofInt message_id := by
    rw [u32At, hword₀, UInt32.ofInt, Int.emod_eq_of_lt hid.1 hid.2]
  rw [messageKind, if_pos hok, hid']

end

/-! ## One message, one packet -/

section

variable {rt : Runtime Float32} {header payload : Bytes} {snapshot : SystemStateSnapshot}

/-- The datagram becomes one packet, for this LRAD, with the text of this document. -/
def Sends (rt : Runtime Float32) (data : Bytes) (snapshot : SystemStateSnapshot) (lradId : UInt16)
    (j : Json Float32) : Prop :=
  ∃ r p, convert rt { data := data } snapshot = .ok r ∧ r.packets = [p] ∧
    p.destinationLradId = lradId ∧ rt.dump j = some p.data ∧
    rt.parse p.data = some (j.reread rt.floatBack)

theorem sends_of_handler (hjson : rt.JsonLaws) {data : Bytes} {k : Kind}
    (hk : messageKind data = some k) {m : ConvertedMessage Float32} {updates : List StateUpdate}
    (hhandler : handlerOf Float32 k rt { data := data } snapshot [] = .ok ([m], updates))
    {lradId : UInt16} (hlrad : m.destinationLradId = lradId)
    {a : Option (Json Float32)} (hdoc : Document a true m.payload) :
    Sends rt data snapshot lradId m.payload := by
  obtain ⟨p, hp⟩ := (serialize_returns_iff hjson).mpr hdoc.utf8Ok
  obtain ⟨hdump, hdest⟩ := serialize_eq_ok.mp hp
  have hparse := hjson.parse_dump _ _ hdoc.sorted hdump
  have hconvert := @convert_eq Float32 _ rt { data := data } snapshot
  rw [hk] at hconvert
  simp only [hhandler, ok_bind, List.mapM_cons, List.mapM_nil, hp, pure_eq_ok] at hconvert
  exact ⟨_, p, hconvert, rfl, hdest.symm.trans hlrad, hdump, hparse⟩

/-- Whether a value packed into 16 bits is a given one can be seen in its field. -/
theorem ofInt_eq_iff {v : ℤ} (hv : 0 ≤ v ∧ v < 256 ^ 2) {n : ℕ} (hn : n < 2 ^ 16) :
    UInt16.ofInt v = UInt16.ofNat n ↔ v = n := by
  have hmod : v % 2 ^ 16 = v := Int.emod_eq_of_lt hv.1 hv.2
  have hlt : v.toNat < 2 ^ 16 := toNat_lt hv
  unfold UInt16.ofInt
  rw [hmod, ← UInt16.toNat_inj, UInt16.toNat_ofNat', UInt16.toNat_ofNat', Nat.mod_eq_of_lt hlt,
    Nat.mod_eq_of_lt hn]
  omega

/-! ## Change configuration and cancellation -/

/-- Both messages are an action id, an LRAD id, and what follows. -/
theorem second_word {v : ℤ} {rest : Bytes} (hlen : header.length = 16)
    (hv : 0 ≤ v ∧ v < 256 ^ 2) (hpayload : payload = toBytes 4 0 ++ (toBytes 2 v.toNat ++ rest)) :
    u16At (header ++ payload) 20 = .ofInt v := by
  apply @u16At_field _ _ hlen 4 v hv
  rw [hpayload]
  exact (wordAt_append (toBytes 4 0) rest 2 v.toNat).trans (Nat.mod_eq_of_lt (toNat_lt hv))

/-- The configuration word becomes the mode. -/
theorem change_configuration_sends (hjson : rt.JsonLaws) {lrad_id configuration : ℤ}
    (hlen : header.length = 16)
    (hk : messageKind (header ++ payload) = some .change_configuration)
    (h : struct_pack [(4, 0), (2, lrad_id), (2, configuration)] = some payload) :
    ∃ j, Sends rt (header ++ payload) snapshot (UInt16.ofInt lrad_id) j ∧
      Json.at? [str "param", str "mode"] j =
        some (.string (if configuration = 0 then str "RELEASE" else str "REQ")) := by
  obtain ⟨hpacks, hpayload⟩ := struct_pack_eq_some h
  simp only [List.forall_mem_cons] at hpacks
  obtain ⟨-, hlrad, hconfiguration, -⟩ := hpacks
  simp only [List.map_cons, List.map_nil, List.flatten_cons, List.flatten_nil] at hpayload
  have hlrad' : u16At (header ++ payload) 20 = .ofInt lrad_id := second_word hlen hlrad hpayload
  have hword : u16At (header ++ payload) (16 + 6) = UInt16.ofInt configuration := by
    apply u16At_field hlen hconfiguration
    rw [hpayload, ← List.append_assoc]
    exact (wordAt_append (toBytes 4 0 ++ toBytes 2 lrad_id.toNat) _ 2 _).trans
      (Nat.mod_eq_of_lt (toNat_lt hconfiguration))
  -- one block
  have hcount : blockCount (header ++ payload) = 1 := by
    unfold blockCount
    rw [hpayload]
    simp only [List.length_append, hlen, length_toBytes, List.length_nil]
  have hhandler := handle_change_configuration_spec rt { data := header ++ payload } snapshot
  unfold blocks at hhandler
  rw [hcount] at hhandler
  refine ⟨_, sends_of_handler hjson hk hhandler hlrad' (change_configuration_document _), ?_⟩
  have hzero : u16At (header ++ payload) (16 + 6) = 0 ↔ configuration = 0 := by
    rw [hword]
    exact @ofInt_eq_iff _ hconfiguration 0 (by norm_num)
  apply (change_configuration_mode _).trans
  show some (Json.string (modeOf (u16At (header ++ payload) (16 + 6)))) = _
  unfold modeOf
  rw [if_congr hzero rfl rfl]

/-- Of a cancellation only the destination is left. -/
theorem cancellation_sends (hjson : rt.JsonLaws) {lrad_id : ℤ} (hlen : header.length = 16)
    (hk : messageKind (header ++ payload) = some .cueing_order_cancellation)
    (h : struct_pack [(4, 0), (2, lrad_id)] = some payload) :
    ∃ j, Sends rt (header ++ payload) snapshot (UInt16.ofInt lrad_id) j := by
  obtain ⟨hpacks, hpayload⟩ := struct_pack_eq_some h
  simp only [List.forall_mem_cons] at hpacks
  obtain ⟨-, hlrad, -⟩ := hpacks
  simp only [List.map_cons, List.map_nil, List.flatten_cons, List.flatten_nil] at hpayload
  have hlrad' : u16At (header ++ payload) 20 = .ofInt lrad_id := second_word hlen hlrad hpayload
  have hsize : 22 ≤ (header ++ payload).length := by
    rw [hpayload]
    simp only [List.length_append, hlen, length_toBytes, List.length_nil]
    norm_num
  have hhandler := handle_cancellation_spec rt { data := header ++ payload } snapshot
  rw [if_pos hsize] at hhandler
  exact ⟨_, sends_of_handler hjson hk hhandler hlrad' cancellation_document⟩

/-! ## Cueing orders -/

/-- Which kinematics types come with coordinates. -/
def cartesian (args : Args) : Bool := decide (1 ≤ args.kinematics_type ∧ args.kinematics_type ≤ 4)

/-- The document of a cueing order made of these arguments. -/
structure CueingDocument (rt : Runtime Float32) (args : Args) (j : Json Float32) : Prop where
  lrad_id : Json.at? [str "meta", str "lrad_id"] j = some (num16 (.ofInt args.lrad_id))
  cueing_type : Json.at? [str "meta", str "cueing_type"] j = some (num16 (.ofInt args.cueing_type))
  cstn : Json.at? [str "meta", str "cstn"] j = some (num32 (.ofInt args.cstn))
  kinematics_type : Json.at? [str "meta", str "kinematics_type"] j =
    some (num16 (.ofInt args.kinematics_type))
  /-- The angles are computed from the very coordinates that were packed. -/
  angles : ∃ x y z azimuthDeg elevationDeg : Float32,
    x.toBits = args.x.bits ∧ y.toBits = args.y.bits ∧
    z.toBits = (if args.kinematics_type = 1 ∨ args.kinematics_type = 2 then args.z.bits else 0) ∧
    cueing_angles rt x y z (cartesian args) = .ok (azimuthDeg, elevationDeg) ∧
    ∃ command rest, cueing_order_json rt (.ofInt args.cueing_type) (cartesian args) azimuthDeg
      elevationDeg = .ok command ∧ j = Json.set (str "meta") rest command

/-- The words of a cueing datagram. -/
structure CueingWords (args : Args) (data : Bytes) : Prop where
  length : data.length = 64
  packed : 0 ≤ args.kinematics_type ∧ args.kinematics_type < 256 ^ 2
  lrad_id : u16At data 20 = .ofInt args.lrad_id
  cueing_type : u16At data 22 = .ofInt args.cueing_type
  cstn : u32At data 24 = .ofInt args.cstn
  kinematics_type : u16At data 36 = .ofInt args.kinematics_type
  x : u32At data 40 = args.x.bits
  y : u32At data 44 = args.y.bits
  z : args.kinematics_type = 1 ∨ args.kinematics_type = 2 → u32At data 48 = args.z.bits

theorem cueing_words {args : Args} {now : Clock} (hlen : header.length = 16)
    (h : build_cueing_order_payload args now = some payload) :
    CueingWords args (header ++ payload) := by
  obtain ⟨hsize, hfields⟩ := cueing_payload h
  have h16 : ∀ (offset : ℕ) {v : ℤ}, ⟨2, offset, v⟩ ∈ cueingFields args now →
      u16At (header ++ payload) (16 + offset) = .ofInt v := by
    intro offset v hf
    exact u16At_field hlen (hfields _ hf).1 (hfields _ hf).2
  have h32 : ∀ (offset : ℕ) {v : ℤ}, ⟨4, offset, v⟩ ∈ cueingFields args now →
      u32At (header ++ payload) (16 + offset) = .ofInt v := by
    intro offset v hf
    exact u32At_field hlen (hfields _ hf).1 (hfields _ hf).2
  have hkt : ⟨2, 20, args.kinematics_type⟩ ∈ cueingFields args now :=
    List.mem_append_left _ (by simp)
  have hx : ⟨4, 24, args.x.bits.toNat⟩ ∈ cueingFields args now :=
    List.mem_append_left _ (by simp)
  have hy : ⟨4, 28, args.y.bits.toNat⟩ ∈ cueingFields args now :=
    List.mem_append_left _ (by simp)
  refine ⟨?_, (hfields _ hkt).1, ?_, ?_, ?_, h16 20 hkt, ?_, ?_, ?_⟩
  · rw [List.length_append, hlen, hsize]
  · exact h16 4 (List.mem_append_left _ (by simp))
  · exact h16 6 (List.mem_append_left _ (by simp))
  · exact h32 8 (List.mem_append_left _ (by simp))
  · exact (h32 24 hx).trans (ofInt_bits _)
  · exact (h32 28 hy).trans (ofInt_bits _)
  · intro h12
    refine (@h32 32 args.z.bits.toNat (List.mem_append_right _ ?_)).trans (ofInt_bits _)
    rcases h12 with h1 | h2
    · rw [if_pos h1]
      exact List.mem_cons_self
    · rw [if_neg (by omega), if_pos h2]
      exact List.mem_cons_self

/-- The coordinates that are read are those that were packed. -/
theorem coordinates_of_words {args : Args} {data : Bytes} (hw : CueingWords args data) :
    coordinatesAt Float32 data (u16At data 36) =
      if args.kinematics_type = 1 ∨ args.kinematics_type = 2 then
        (.ofBits args.x.bits, .ofBits args.y.bits, .ofBits args.z.bits, true)
      else if args.kinematics_type = 3 ∨ args.kinematics_type = 4 then
        (.ofBits args.x.bits, .ofBits args.y.bits, whole Float32 0, true)
      else (whole Float32 0, whole Float32 0, whole Float32 0, false) := by
  have hkind : ∀ n : ℕ, n < 2 ^ 16 →
      (u16At data 36 = UInt16.ofNat n ↔ args.kinematics_type = n) := by
    intro n hn
    rw [hw.kinematics_type]
    exact ofInt_eq_iff hw.packed hn
  have h12 : u16At data 36 = 1 ∨ u16At data 36 = 2 ↔
      args.kinematics_type = 1 ∨ args.kinematics_type = 2 :=
    or_congr (hkind 1 (by norm_num)) (hkind 2 (by norm_num))
  have h34 : u16At data 36 = 3 ∨ u16At data 36 = 4 ↔
      args.kinematics_type = 3 ∨ args.kinematics_type = 4 :=
    or_congr (hkind 3 (by norm_num)) (hkind 4 (by norm_num))
  have hsize := hw.length
  unfold coordinatesAt
  by_cases hthree : args.kinematics_type = 1 ∨ args.kinematics_type = 2
  · rw [if_pos (h12.mpr hthree), if_pos (by omega), if_pos hthree, hw.x, hw.y, hw.z hthree]
    rfl
  rw [if_neg (h12.not.mpr hthree), if_neg hthree]
  by_cases htwo : args.kinematics_type = 3 ∨ args.kinematics_type = 4
  · rw [if_pos (h34.mpr htwo), if_pos (by omega), if_pos htwo, hw.x, hw.y]
    rfl
  · rw [if_neg (h34.not.mpr htwo), if_neg htwo]

theorem toBits_zero : (whole Float32 0).toBits = 0 := by decide

/-- The angles are computed from them. -/
theorem angles_of_words {args : Args} {data : Bytes} (hw : CueingWords args data) :
    ∃ x y z : Float32, x.toBits = args.x.bits ∧ y.toBits = args.y.bits ∧
      z.toBits =
        (if args.kinematics_type = 1 ∨ args.kinematics_type = 2 then args.z.bits else 0) ∧
      ∃ x' y' z', coordinatesAt Float32 data (u16At data 36) = (x', y', z', cartesian args) ∧
        cueing_angles rt x' y' z' (cartesian args) = cueing_angles rt x y z (cartesian args) := by
  have hx : (Float32.ofBits args.x.bits).toBits = args.x.bits := toBits_ofBits args.x.finite
  have hy : (Float32.ofBits args.y.bits).toBits = args.y.bits := toBits_ofBits args.y.finite
  have hz : (Float32.ofBits args.z.bits).toBits = args.z.bits := toBits_ofBits args.z.finite
  rw [coordinates_of_words hw]
  unfold cartesian
  by_cases hthree : args.kinematics_type = 1 ∨ args.kinematics_type = 2
  · have hcartesian : 1 ≤ args.kinematics_type ∧ args.kinematics_type ≤ 4 := by omega
    simp only [if_pos hthree, decide_eq_true hcartesian]
    exact ⟨_, _, _, hx, hy, hz, _, _, _, rfl, rfl⟩
  simp only [if_neg hthree]
  by_cases htwo : args.kinematics_type = 3 ∨ args.kinematics_type = 4
  · have hcartesian : 1 ≤ args.kinematics_type ∧ args.kinematics_type ≤ 4 := by omega
    simp only [if_pos htwo, decide_eq_true hcartesian]
    exact ⟨_, _, _, hx, hy, toBits_zero, _, _, _, rfl, rfl⟩
  · -- without coordinates the angles do not depend on any
    have hnone : ¬ (1 ≤ args.kinematics_type ∧ args.kinematics_type ≤ 4) := by omega
    have hfixed : ∀ a b c : Float32,
        cueing_angles rt a b c false = .ok (whole Float32 0, whole Float32 0) :=
      fun a b c => rfl
    simp only [if_neg htwo, decide_eq_false hnone]
    refine ⟨_, _, _, hx, hy, toBits_zero, _, _, _, rfl, ?_⟩
    rw [hfixed, hfixed]

/-- `meta` is set in a command, so it is found there. -/
theorem at?_meta {cueingType : UInt16} {hasCartesianCoordinates : Bool}
    {azimuthDeg elevationDeg : Float32} {command : Json Float32}
    (h : cueing_order_json rt cueingType hasCartesianCoordinates azimuthDeg elevationDeg =
      .ok command) (rest : Json Float32) (key : Bytes) :
    Json.at? [str "meta", key] (Json.set (str "meta") rest command) = Json.at? [key] rest := by
  have hsettable : command.settable = true := by
    rw [cueing_order_json] at h
    obtain ⟨azimuth360, -, h⟩ := bind_eq_ok.mp h
    obtain ⟨elevation360, -, h⟩ := bind_eq_ok.mp h
    by_cases hmove : cueingType = 1
    · rw [if_pos hmove] at h
      obtain rfl := Except.ok.inj h
      rfl
    · rw [if_neg hmove] at h
      obtain ⟨az, -, h⟩ := bind_eq_ok.mp h
      obtain ⟨el, -, h⟩ := bind_eq_ok.mp h
      obtain rfl := Except.ok.inj h
      rfl
  rw [Json.at?, find?_set, if_pos ⟨rfl, hsettable⟩, Option.bind_some]

theorem cueing_sends (hjson : rt.JsonLaws) (hatan : Atan2Range rt) (hfuel : 2 ≤ rt.fuel)
    {args : Args} {data : Bytes} (hk : messageKind data = some .cueing_order)
    (hw : CueingWords args data) :
    ∃ j, Sends rt data snapshot (.ofInt args.lrad_id) j ∧ CueingDocument rt args j := by
  obtain ⟨x, y, z, hx, hy, hz, x', y', z', hcoordinates, hsame⟩ := @angles_of_words rt _ _ hw
  obtain ⟨⟨azimuthDeg, elevationDeg⟩, hangles, haz, hel⟩ :=
    cueing_angles_returns hfuel hatan x y z (cartesian args)
  obtain ⟨command, hcommand⟩ :=
    cueing_order_json_returns hfuel (.ofInt args.cueing_type) (cartesian args) haz hel
  have hmessage : cueingMessage rt data = .ok {
      payload := command |> Json.set (str "meta") (cueingMeta data)
      destinationLradId := u16At data 20 } := by
    unfold cueingMessage
    simp only [hcoordinates, hsame, hangles, hw.cueing_type, hcommand, ok_bind, pure_eq_ok]
  have hsize : 38 ≤ data.length := by
    rw [hw.length]
    norm_num
  have hhandler := handle_cueing_spec rt { data := data } snapshot
  rw [if_pos hsize, hmessage] at hhandler
  refine ⟨_, sends_of_handler hjson hk hhandler hw.lrad_id (cueing_document _ _ _ _ _ hcommand), ?_⟩
  have hmeta := at?_meta hcommand (cueingMeta data)
  constructor
  · rw [← hw.lrad_id]
    exact (hmeta _).trans (by simp [Json.at?, cueingMeta, findMember, num16])
  · rw [← hw.cueing_type]
    exact (hmeta _).trans (by simp [Json.at?, cueingMeta, findMember, num16])
  · rw [← hw.cstn]
    exact (hmeta _).trans (by simp [Json.at?, cueingMeta, findMember, num32])
  · rw [← hw.kinematics_type]
    exact (hmeta _).trans (by simp [Json.at?, cueingMeta, findMember, num16])
  · exact ⟨x, y, z, azimuthDeg, elevationDeg, hx, hy, hz, hangles, command, _, hcommand, rfl⟩

/-! ## Emission control -/

/-- The fields of an emission-control order, as the arguments give them. -/
def emissionOf (args : Args) : EmissionControl Float32 where
  actionId := .ofInt args.action_id
  lradId := .ofInt args.lrad_id
  audioModeValidity := .ofInt args.audio_mode_validity
  volumeLevel := .ofInt args.volume_level
  audioVolumeDb := .ofBits args.audio_volume_db.bits
  mute := .ofInt args.mute
  audioMode := .ofInt args.audio_mode
  recordedMessageId := .ofInt args.recorded_message_id
  recordedLanguage := .ofInt args.recorded_language
  recordedLoop := .ofInt args.recorded_loop
  freeTextLanguageIn := .ofInt args.free_text_language_in
  freeTextLanguageOut := .ofInt args.free_text_language_out
  freeTextMessage := sentText args
  freeTextLoop := .ofInt args.free_text_loop
  laserModeValidity := .ofInt args.laser_mode_validity
  laserMode := .ofInt args.laser_mode
  lightModeValidity := .ofInt args.light_mode_validity
  lightPower := .ofInt args.light_power
  lightZoom := .ofInt args.light_zoom
  lrfModeValidity := .ofInt args.lrf_mode_validity
  lrfOnOff := .ofInt args.lrf_on_off
  cameraZoomValidity := .ofInt args.camera_zoom_validity
  cameraZoom := .ofInt args.camera_zoom
  horizontalReferenceValidity := .ofInt args.horizontal_reference_validity
  horizontalReference := .ofInt args.horizontal_reference

/-- What is read from an emission-control datagram is what was packed. -/
theorem emissionAt_datagram {args : Args} (hlen : header.length = 16)
    (h : build_emission_control_payload args = some payload) :
    emissionAt Float32 (header ++ payload) = emissionOf args := by
  obtain ⟨-, hfields, htext⟩ := emission_payload h
  have h16 : ∀ (offset : ℕ) {v : ℤ}, ⟨2, offset, mask16 v⟩ ∈ emissionFields args ++
      emissionFields' args → u16At (header ++ payload) (16 + offset) = .ofInt v := by
    intro offset v hf
    have hv : 0 ≤ mask16 v ∧ mask16 v < 256 ^ 2 := by
      unfold mask16
      omega
    rw [u16At_field hlen hv (hfields _ hf)]
    unfold mask16 UInt16.ofInt
    rw [Int.emod_emod]
  have h32 : ∀ (offset : ℕ) {v : ℤ}, ⟨4, offset, mask32 v⟩ ∈ emissionFields args ++
      emissionFields' args → u32At (header ++ payload) (16 + offset) = .ofInt v := by
    intro offset v hf
    have hv : 0 ≤ mask32 v ∧ mask32 v < 256 ^ 4 := by
      unfold mask32
      omega
    rw [u32At_field hlen hv (hfields _ hf)]
    unfold mask32 UInt32.ofInt
    rw [Int.emod_emod]
  have hvolume : u32At (header ++ payload) (16 + 10) = args.audio_volume_db.bits := by
    have hlt := args.audio_volume_db.bits.toNat_lt
    have hv : 0 ≤ (args.audio_volume_db.bits.toNat : ℤ) ∧
        (args.audio_volume_db.bits.toNat : ℤ) < 256 ^ 4 := by omega
    have hf : ⟨4, 10, args.audio_volume_db.bits.toNat⟩ ∈ emissionFields args ++
        emissionFields' args := List.mem_append_left _ (by simp [emissionFields])
    exact (u32At_field hlen hv (hfields _ hf)).trans (ofInt_bits _)
  have hmessage : freeText (header ++ payload) = sentText args := by
    show (slice (16 + 30) 768 (header ++ payload)).takeWhile (· ≠ 0) = _
    rw [slice_append_right (by omega), hlen, Nat.add_sub_cancel_left, htext,
      takeWhile_append_zeros, sentText]
  unfold emissionAt emissionOf
  rw [EmissionControl.mk.injEq]
  refine ⟨h32 0 ?_, h16 4 ?_, h16 6 ?_, h16 8 ?_, congrArg Float32.ofBits hvolume, h16 14 ?_,
    h16 16 ?_, h32 18 ?_, h16 22 ?_, h16 24 ?_, h16 26 ?_, h16 28 ?_, hmessage, h16 798 ?_,
    h16 800 ?_, h16 802 ?_, h16 804 ?_, h16 806 ?_, h16 808 ?_, h16 810 ?_, h16 812 ?_, h16 814 ?_,
    h16 816 ?_, h16 818 ?_, h16 820 ?_⟩ <;>
    simp [emissionFields, emissionFields']

/-- The integer arguments, each with the path of its field in the document. -/
def emissionNumbers (args : Args) : List (List String × ℤ) :=
  [(["param", "action_id"], mask32 args.action_id),
    (["param", "lrad_id"], mask16 args.lrad_id),
    (["param", "audio_mode_validity"], mask16 args.audio_mode_validity),
    (["param", "audio_mode", "volume_mode", "level"], mask16 args.volume_level),
    (["param", "audio_mode", "volume_mode", "mute"], mask16 args.mute),
    (["param", "audio_mode", "volume_mode", "audio_mode"], mask16 args.audio_mode),
    (["param", "audio_mode", "recorded_message_tone", "message_id"],
      mask32 args.recorded_message_id),
    (["param", "audio_mode", "recorded_message_tone", "language"], mask16 args.recorded_language),
    (["param", "audio_mode", "recorded_message_tone", "loop"], mask16 args.recorded_loop),
    (["param", "audio_mode", "free_text", "text", "language_in"],
      mask16 args.free_text_language_in),
    (["param", "audio_mode", "free_text", "text", "language_out"],
      mask16 args.free_text_language_out),
    (["param", "audio_mode", "free_text", "loop"], mask16 args.free_text_loop),
    (["param", "laser_mode_validity"], mask16 args.laser_mode_validity),
    (["param", "laser_mode"], mask16 args.laser_mode),
    (["param", "light_mode_validity"], mask16 args.light_mode_validity),
    (["param", "light_mode", "light_power"], mask16 args.light_power),
    (["param", "light_mode", "light_zoom"], mask16 args.light_zoom),
    (["param", "lrf_mode_validity"], mask16 args.lrf_mode_validity),
    (["param", "lrf_on_off"], mask16 args.lrf_on_off),
    (["param", "camera_zoom_validity"], mask16 args.camera_zoom_validity),
    (["param", "camera_zoom"], mask16 args.camera_zoom),
    (["param", "horizontal_reference_validity"], mask16 args.horizontal_reference_validity),
    (["param", "horizontal_reference"], mask16 args.horizontal_reference)]

/-- The document of an emission-control order made of these arguments. -/
structure EmissionDocument (args : Args) (j : Json Float32) : Prop where
  numbers : ∀ f ∈ emissionNumbers args,
    Json.at? (f.1.map str) j = some (.number_unsigned f.2.toNat)
  audio_volume_db : ∃ v : Float32, v.toBits = args.audio_volume_db.bits ∧
    Json.at? [str "param", str "audio_mode", str "volume_mode", str "audio_volume_db"] j =
      some (.number_float v)
  message_text :
    Json.at? [str "param", str "audio_mode", str "free_text", str "text", str "message_text"] j =
      some (.string (sentText args))

theorem num16_ofInt (v : ℤ) :
    (num16 (.ofInt v) : Json Float32) = .number_unsigned (mask16 v).toNat := by
  have hlt : (v % 2 ^ 16).toNat < 2 ^ 16 := by omega
  unfold num16 mask16 UInt16.ofInt
  rw [UInt16.toNat_ofNat', Nat.mod_eq_of_lt hlt]

theorem num32_ofInt (v : ℤ) :
    (num32 (.ofInt v) : Json Float32) = .number_unsigned (mask32 v).toNat := by
  have hlt : (v % 2 ^ 32).toNat < 2 ^ 32 := by omega
  unfold num32 mask32 UInt32.ofInt
  rw [UInt32.toNat_ofNat', Nat.mod_eq_of_lt hlt]

theorem emission_document (args : Args) :
    EmissionDocument args (emission_control_json (emissionOf args)) := by
  constructor
  · unfold emissionNumbers
    simp only [List.forall_mem_cons, ← num16_ofInt, ← num32_ofInt]
    simp [Json.at?, emission_control_json, emissionOf, findMember]
  · refine ⟨Float32.ofBits args.audio_volume_db.bits, toBits_ofBits args.audio_volume_db.finite, ?_⟩
    simp [Json.at?, emission_control_json, emissionOf, findMember]
  · simp [Json.at?, emission_control_json, emissionOf, findMember]

/-- The text can be sent when it fits its area, and also when it is cut to valid UTF-8. -/
theorem emission_sends (hjson : rt.JsonLaws) {args : Args} (hlen : header.length = 16)
    (hk : messageKind (header ++ payload) = some .emission_control)
    (h : build_emission_control_payload args = some payload)
    (htext : TextFits args.free_text_message ∨ validUtf8 (sentText args) = true) :
    ∃ j, Sends rt (header ++ payload) snapshot (.ofInt args.lrad_id) j ∧
      EmissionDocument args j := by
  have hvalid : validUtf8 (emissionOf args).freeTextMessage = true := by
    rcases htext with hfits | hvalid
    · exact (congrArg validUtf8 (sentText_of_fits hfits)).trans (validUtf8_str _)
    · exact hvalid
  have hdoc := emission_control_document (emissionOf args)
  rw [hvalid] at hdoc
  have hsize : 838 ≤ (header ++ payload).length := by
    rw [List.length_append, hlen, (emission_payload h).1]
  have hemission := emissionAt_datagram hlen h
  have hlrad : u16At (header ++ payload) 20 = .ofInt args.lrad_id :=
    congrArg EmissionControl.lradId hemission
  have hhandler := handle_emission_control_spec rt { data := header ++ payload } snapshot
  rw [if_pos hsize, hemission] at hhandler
  exact ⟨_, sends_of_handler hjson hk hhandler hlrad hdoc, emission_document args⟩

end

/-! ## All messages -/

/-- The arguments are found in the document. -/
structure Decoded (rt : Runtime Float32) (args : Args) (j : Json Float32) : Prop where
  change_configuration : args.message_id = 1679949825 →
    Json.at? [str "param", str "mode"] j =
      some (.string (if args.configuration = 0 then str "RELEASE" else str "REQ"))
  cueing_order : args.message_id = 1679949827 → CueingDocument rt args j
  emission_control : args.message_id = 1679949828 → EmissionDocument args j
  /-- A text that fits is sent as it was given. -/
  whole_text : args.message_id = 1679949828 → TextFits args.free_text_message →
    Json.at? [str "param", str "audio_mode", str "free_text", str "text", str "message_text"] j =
      some (.string (str args.free_text_message))

/-- **Decoding undoes encoding.** Whatever the encoder makes of its arguments is
converted into one packet, for the LRAD of the arguments, and the document of the
packet holds them. -/
theorem encoded_is_converted {rt : Runtime Float32} (hjson : rt.JsonLaws) (hatan : Atan2Range rt)
    (hfuel : 2 ≤ rt.fuel) {args : Args} {now later : Clock} {data : Bytes}
    (hdata : main args now later = some data)
    (htext : args.message_id = 1679949828 →
      TextFits args.free_text_message ∨ validUtf8 (sentText args) = true)
    (snapshot : SystemStateSnapshot) :
    ∃ j, Sends rt data snapshot (.ofInt args.lrad_id) j ∧ Decoded rt args j := by
  unfold main at hdata
  obtain ⟨payload, hpayload, hdata⟩ := Option.bind_eq_some_iff.mp hdata
  obtain ⟨header, hheader, hdata⟩ := Option.bind_eq_some_iff.mp hdata
  obtain rfl := Option.some.inj hdata
  have hlen := (header_spec hheader).1
  have hk := messageKind_datagram hheader
  unfold main_payload at hpayload
  by_cases hcueing : args.message_id = 1679949827
  · rw [if_pos hcueing] at hpayload
    rw [hcueing] at hk
    obtain ⟨j, hsends, hdoc⟩ :=
      @cueing_sends rt snapshot hjson hatan hfuel _ _ hk (cueing_words hlen hpayload)
    exact ⟨j, hsends, ⟨by omega, fun _ => hdoc, by omega, by omega⟩⟩
  rw [if_neg hcueing] at hpayload
  by_cases hemission : args.message_id = 1679949828
  · rw [if_pos hemission] at hpayload
    rw [hemission] at hk
    obtain ⟨j, hsends, hdoc⟩ :=
      @emission_sends rt _ _ snapshot hjson _ hlen hk hpayload (htext hemission)
    refine ⟨j, hsends, ⟨by omega, by omega, fun _ => hdoc, fun _ hfits => ?_⟩⟩
    rw [← sentText_of_fits hfits]
    exact hdoc.message_text
  rw [if_neg hemission] at hpayload
  obtain ⟨builder, hbuilder, hpayload⟩ := Option.bind_eq_some_iff.mp hpayload
  unfold MESSAGES at hbuilder
  by_cases hconfiguration : args.message_id = 1679949825
  · rw [if_pos hconfiguration] at hbuilder
    obtain rfl := Option.some.inj hbuilder
    rw [hconfiguration] at hk
    obtain ⟨j, hsends, hmode⟩ :=
      @change_configuration_sends rt _ _ snapshot hjson _ _ hlen hk hpayload
    exact ⟨j, hsends, ⟨fun _ => hmode, by omega, by omega, by omega⟩⟩
  rw [if_neg hconfiguration] at hbuilder
  by_cases hcancellation : args.message_id = 1679949826
  · rw [if_pos hcancellation] at hbuilder
    obtain rfl := Option.some.inj hbuilder
    rw [hcancellation] at hk
    obtain ⟨j, hsends⟩ := @cancellation_sends rt _ _ snapshot hjson _ hlen hk hpayload
    exact ⟨j, hsends, ⟨by omega, by omega, by omega, by omega⟩⟩
  · -- the script refuses every other message id
    rw [if_neg hcancellation] at hbuilder
    exact absurd hbuilder (by simp)

/-- An emission-control order with a text. -/
def halt : Args := { message_id := 1679949828, lrad_id := 2, free_text_message := "HALT" }

/-- A cueing order with the coordinates 1000, -500 and 3. -/
def aim : Args where
  message_id := 1679949827
  x := ⟨0x447A0000, by decide⟩
  y := ⟨0xC3FA0000, by decide⟩
  z := ⟨0x40400000, by decide⟩

theorem encoded_is_converted_two :
    (∃ data j, main halt ⟨0, 0⟩ ⟨0, 0⟩ = some data ∧ Sends linux data {} 2 j ∧
      Decoded linux halt j) ∧
    ∃ data j, main aim ⟨0, 0⟩ ⟨0, 0⟩ = some data ∧ Sends linux data {} 1 j ∧
      Decoded linux aim j := by
  constructor
  · obtain ⟨data, hdata⟩ := Option.isSome_iff_exists.mp
      (show (main halt ⟨0, 0⟩ ⟨0, 0⟩).isSome = true by decide +kernel)
    have hfits : TextFits halt.free_text_message := ⟨by decide, by decide⟩
    obtain ⟨j, hsends, hdecoded⟩ := encoded_is_converted linux_jsonLaws linux_atan2Range
      (by decide) hdata (fun _ => Or.inl hfits) {}
    exact ⟨data, j, hdata, hsends, hdecoded⟩
  · obtain ⟨data, hdata⟩ := Option.isSome_iff_exists.mp
      (show (main aim ⟨0, 0⟩ ⟨0, 0⟩).isSome = true by decide +kernel)
    obtain ⟨j, hsends, hdecoded⟩ := encoded_is_converted linux_jsonLaws linux_atan2Range
      (by decide) hdata (fun h => absurd h (by decide)) {}
    exact ⟨data, j, hdata, hsends, hdecoded⟩

end CmsProxy.RoundTrip
