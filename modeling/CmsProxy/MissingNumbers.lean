/-
Which datagrams become commands without a missing number.

No handler looks at the values of the floats it reads. What becomes of a NaN is
followed here through the angle computations: the azimuth is NaN where x or y is, the
elevation where any coordinate is, and an infinite coordinate gives an ordinary angle
(`angles_of_target`). `MOVE` and the emission control then write `null`, and `DELTA`
whatever `lround` makes of NaN, which no standard says. A command carries all of its
numbers if and only if no coordinate it uses is NaN and its volume is finite
(`carries_numbers_iff`).
-/
import CmsProxy.Cueing
import CmsProxy.NonFinite

set_option autoImplicit false

namespace CmsProxy.MissingNumbers

open BigEndian Binary32 Interfaces JsonValue CueingMath CueingBounds Converter Orders Cueing
open Commands (convert_messages kind_of_accepted)
open Reference (withText jsonLaws_withText scaledText position)

/-! ## What is assumed of the library -/

/-- What the functions outside make of values that are no numbers: `sqrt` and `atan2`
return NaN for NaN, `sqrt` for negative numbers also, and neither for anything else;
a float that is not finite is dumped as `null`. -/
structure NaNLaws (rt : Runtime Float32) : Prop where
  sqrt : ∀ a, IsNaN (rt.sqrt a) ↔ IsNaN a ∨ a < whole Float32 0
  atan2 : ∀ y x, IsNaN (rt.atan2 y x) ↔ IsNaN y ∨ IsNaN x
  null : ∀ a, rt.floatBack a = none ↔ toRat a = none

/-- Rounding to the nearest integer, halfway cases away from zero. -/
def nearestInteger (q : ℚ) : ℤ := if 0 ≤ q then ⌊q + 1 / 2⌋ else ⌈q - 1 / 2⌉

/-- `lround` rounds numbers within the range of `long`; about the rest nothing is said. -/
def LroundLaw (lround : Float32 → ℤ) : Prop :=
  ∀ a q, toRat a = some q → |q| < 2 ^ 63 → lround a = nearestInteger q

/-! ## The property -/

/-- Where the commands have a number that is computed or copied from a float. -/
def numericFields : List (List Bytes) :=
  [[str "param", str "az"], [str "param", str "el"],
    [str "param", str "audio_mode", str "volume_mode", str "audio_volume_db"]]

/-- A JSON number. -/
def IsNumber : Json Float32 → Prop
  | .number_integer _ => True
  | .number_unsigned _ => True
  | .number_float _ => True
  | _ => False

/-- What the receiver of a packet reads at a path. -/
def fieldOf (rt : Runtime Float32) (path : List Bytes) (p : RawPacket) : Option (Json Float32) :=
  (rt.parse p.data).bind (Json.at? path)

/-- The datagram becomes commands whose numeric fields are numbers, and the same ones
whatever `lround` makes of values it does not round. -/
structure CarriesNumbers (rt : Runtime Float32) (data : Bytes) (snapshot : SystemStateSnapshot) :
    Prop where
  number : ∀ f, LroundLaw f → ∀ r,
    convert { rt with lround := f } { data := data } snapshot = .ok r →
      ∀ path ∈ numericFields, ∀ p ∈ r.packets, ∀ v, fieldOf rt path p = some v → IsNumber v
  specified : ∀ f g, LroundLaw f → LroundLaw g → ∀ r r',
    convert { rt with lround := f } { data := data } snapshot = .ok r →
      convert { rt with lround := g } { data := data } snapshot = .ok r' →
        ∀ path ∈ numericFields, r.packets.map (fieldOf rt path) = r'.packets.map (fieldOf rt path)

/-- The float at an offset. -/
abbrev floatAt (data : Bytes) (offset : ℕ) : Float32 := Float32.ofBits (u32At data offset)

/-- A coordinate that the order uses is NaN, or its volume is not finite. -/
def NumberMissing (data : Bytes) : Prop :=
  match messageKind data with
  | some .cueing_order => hasCoordinates data = true ∧
      (IsNaN (floatAt data 40) ∨ IsNaN (floatAt data 44) ∨
        (u16At data 36 = 1 ∨ u16At data 36 = 2) ∧ IsNaN (floatAt data 48))
  | some .emission_control => toRat (floatAt data 26) = none
  | _ => False

/-! ## NaN under a condition -/

/-- `a` is NaN under the condition, and otherwise a number from `lo` to `hi`. -/
def NaNWhen (c : Prop) (lo hi : ℚ) (a : Float32) : Prop :=
  (c → IsNaN a) ∧ (¬ c → ∃ q, toRat a = some q ∧ lo ≤ q ∧ q ≤ hi)

section

variable {c : Prop} {lo hi : ℚ} {a : Float32}

theorem NaNWhen.of_within (ha : Within lo hi a) (h : IsNaN a ↔ c) : NaNWhen c lo hi a :=
  ⟨h.mpr, fun hc => ha.resolve_left (mt h.mp hc)⟩

/-- A step of a computation that keeps NaN, and numbers within bounds. -/
theorem NaNWhen.map {lo' hi' : ℚ} (ha : NaNWhen c lo hi a) (f : Float32 → Float32)
    (hnan : ∀ b, IsNaN b → IsNaN (f b))
    (hnum : ∀ b q, toRat b = some q → lo ≤ q → q ≤ hi →
      ∃ q', toRat (f b) = some q' ∧ lo' ≤ q' ∧ q' ≤ hi') : NaNWhen c lo' hi' (f a) := by
  refine ⟨fun hc => hnan a (ha.1 hc), fun hc => ?_⟩
  obtain ⟨q, hq, hlo, hhi⟩ := ha.2 hc
  exact hnum a q hq hlo hhi

theorem NaNWhen.mono {lo' hi' : ℚ} (ha : NaNWhen c lo hi a) (hlo : lo' ≤ lo) (hhi : hi ≤ hi') :
    NaNWhen c lo' hi' a :=
  ha.map id (fun _ hb => hb) fun _ q hq hq0 hq1 => ⟨q, hq, hlo.trans hq0, hq1.trans hhi⟩

/-- The wrap keeps NaN, and wraps numbers. -/
theorem NaNWhen.mod360 {fuel : ℕ} (hfuel : 2 ≤ fuel) (ha : NaNWhen c (-360) 699 a) :
    ∃ r, mod360 fuel a = some r ∧ NaNWhen c 0 360 r := by
  by_cases hc : c
  · exact ⟨a, mod360_isNaN hfuel (ha.1 hc), ha.1, fun hno => absurd hc hno⟩
  · obtain ⟨q, hq, hlo, hhi⟩ := ha.2 hc
    obtain ⟨r, q', hr, hq', h0, h360⟩ := mod360_number hfuel hq hlo hhi
    exact ⟨r, hr, fun hyes => absurd hyes hc, fun _ => ⟨q', hq', h0, h360.le⟩⟩

end

/-! ## The angles -/

section

variable {rt : Runtime Float32}

/-- **The angles of a target**, with no offset of the reference point. -/
theorem angles_of_target (hnan : NaNLaws rt) (hatan : Atan2Range rt) (hfuel : 2 ≤ rt.fuel)
    (x y z : Float32) : ∃ az el, cueing_angles rt x y z true = .ok (az, el) ∧
      NaNWhen (IsNaN y ∨ IsNaN x) (-360) 699 az ∧
      NaNWhen (IsNaN z ∨ IsNaN x ∨ IsNaN y) (-360) 699 el := by
  have hsub : ∀ c, IsNaN (c - whole Float32 0) ↔ IsNaN c := by
    intro c
    apply isNaN_sub_zero_iff (s := .positive)
    rfl
  obtain ⟨x', hx'⟩ : ∃ x', x' = x - whole Float32 0 := ⟨_, rfl⟩
  obtain ⟨y', hy'⟩ : ∃ y', y' = y - whole Float32 0 := ⟨_, rfl⟩
  obtain ⟨z', hz'⟩ : ∃ z', z' = z - whole Float32 0 := ⟨_, rfl⟩
  have hangle : ∀ u v c, (IsNaN (rt.atan2 u v) ↔ c) →
      NaNWhen c (-181) 181 (rad2deg (rt.atan2 u v)) := by
    intro u v c hc
    exact (NaNWhen.of_within (atan2_within hatan u v) hc).map rad2deg
      (fun _ hb => IsNaN.rad2deg hb) (fun _ _ hq hlo hhi => rad2deg_number hq hlo hhi)
  -- the azimuth
  have hazimuth : IsNaN (rt.atan2 y' x') ↔ IsNaN y ∨ IsNaN x := by
    rw [hnan.atan2, hy', hx', hsub, hsub]
  have hnautical := (hangle y' x' _ hazimuth).map (fun b => whole Float32 90 - b)
    (fun _ hb => hb.sub_right _) (fun _ _ hq hlo hhi => nautical_number hq hlo hhi)
  obtain ⟨az, haz, hazNaN⟩ := hnautical.mod360 hfuel
  -- the elevation: the projected range is a root of a sum of squares
  have helevation : IsNaN (rt.atan2 z' (rt.sqrt (x' * x' + y' * y'))) ↔
      IsNaN z ∨ IsNaN x ∨ IsNaN y := by
    have hsquares : ¬ x' * x' + y' * y' < whole Float32 0 := by
      apply not_add_squares_lt (s := .positive)
      rfl
    rw [hnan.atan2, hnan.sqrt, or_iff_left hsquares, isNaN_add_squares_iff, hx', hy', hz', hsub,
      hsub, hsub]
  have hel := hangle z' (rt.sqrt (x' * x' + y' * y')) _ helevation
  refine ⟨az, _, ?_, hazNaN.mono (by norm_num) (by norm_num), hel.mono (by norm_num) (by norm_num)⟩
  rw [cueing_angles, if_pos rfl, cartesian2target, ← hx', ← hy', ← hz']
  simp only [haz, Option.bind_eq_bind, Option.bind_some]
  rfl

variable {data : Bytes} {snapshot : SystemStateSnapshot}

theorem numberMissing_cueing (hk : messageKind data = some .cueing_order) :
    NumberMissing data ↔ hasCoordinates data = true ∧
      (IsNaN (floatAt data 40) ∨ IsNaN (floatAt data 44) ∨
        (u16At data 36 = 1 ∨ u16At data 36 = 2) ∧ IsNaN (floatAt data 48)) := by
  rw [NumberMissing, hk]

/-- The coordinates a datagram has, with its NaNs. -/
theorem coordinates_nan (hk : messageKind data = some .cueing_order)
    (hhas : hasCoordinates data = true) : ∃ x y z,
      coordinatesAt Float32 data (u16At data 36) = (x, y, z, true) ∧
        (IsNaN z ∨ IsNaN x ∨ IsNaN y ↔ NumberMissing data) := by
  rw [numberMissing_cueing hk, and_iff_right hhas]
  have hpresent := @coordinatesAt_present Float32 _ data
  rw [hhas] at hpresent
  rw [coordinatesAt] at hpresent ⊢
  by_cases h12 : u16At data 36 = 1 ∨ u16At data 36 = 2
  · rw [if_pos h12] at hpresent ⊢
    by_cases h52 : 52 ≤ data.length
    · rw [if_pos h52]
      refine ⟨_, _, _, rfl, ?_⟩
      rw [and_iff_right h12, or_comm, or_assoc]
      exact Iff.rfl
    · rw [if_neg h52] at hpresent
      exact absurd hpresent Bool.false_ne_true
  · rw [if_neg h12] at hpresent ⊢
    by_cases h34 : u16At data 36 = 3 ∨ u16At data 36 = 4
    · rw [if_pos h34] at hpresent ⊢
      by_cases h48 : 48 ≤ data.length
      · rw [if_pos h48]
        refine ⟨_, _, _, rfl, ?_⟩
        -- the height of a flat position is a constant
        rw [or_iff_right (not_isNaN_of_toRat toRat_0)]
        exact or_congr_right (or_iff_left fun h => h12 h.1).symm
      · rw [if_neg h48] at hpresent
        exact absurd hpresent Bool.false_ne_true
    · rw [if_neg h34] at hpresent
      exact absurd hpresent Bool.false_ne_true

/-- The wrapped angles of a cueing order. -/
theorem wrapped_angles (hnan : NaNLaws rt) (hatan : Atan2Range rt) (hfuel : 2 ≤ rt.fuel)
    (hk : messageKind data = some .cueing_order) : ∃ az el azimuth360 elevation360,
      handedAngles rt data = .ok (az, el) ∧ normalize_0_360 rt az = some azimuth360 ∧
        normalize_0_360 rt el = some elevation360 ∧
        (¬ NumberMissing data → NaNWhen False 0 360 azimuth360) ∧
        NaNWhen (NumberMissing data) 0 360 elevation360 := by
  cases hhas : hasCoordinates data with
  | false =>
      have hzero : NaNWhen False (-360) 699 (whole Float32 0) :=
        ⟨False.elim, fun _ => ⟨0, toRat_0, by norm_num, by norm_num⟩⟩
      obtain ⟨r, hr, hnumber⟩ := hzero.mod360 hfuel
      have hmissing : NumberMissing data ↔ False := by
        rw [numberMissing_cueing hk, hhas]
        exact iff_of_false (fun h => Bool.false_ne_true h.1) id
      have hpresent := @coordinatesAt_present Float32 _ data
      rw [hhas] at hpresent
      refine ⟨whole Float32 0, whole Float32 0, r, r, ?_, hr, hr, fun _ => hnumber, ?_⟩
      · rw [handedAngles]
        simp only [hpresent, cueing_angles, Bool.false_eq_true, if_false, pure_eq_ok]
      · rw [hmissing]
        exact hnumber
  | true =>
      obtain ⟨x, y, z, hcoordinates, hmissing⟩ := coordinates_nan hk hhas
      obtain ⟨az, el, hangles, haz, hel⟩ := angles_of_target hnan hatan hfuel x y z
      obtain ⟨azimuth360, haz360, haz'⟩ := haz.mod360 hfuel
      obtain ⟨elevation360, hel360, hel'⟩ := hel.mod360 hfuel
      rw [hmissing] at hel'
      refine ⟨az, el, azimuth360, elevation360, ?_, haz360, hel360, fun hno => ?_, hel'⟩
      · rw [handedAngles, hcoordinates]
        exact hangles
      · -- a NaN azimuth comes from a NaN coordinate
        have hazimuth : ¬ (IsNaN y ∨ IsNaN x) :=
          fun h => hno (hmissing.mp (Or.inr (or_comm.mp h)))
        exact ⟨False.elim, fun _ => haz'.2 hazimuth⟩

/-! ## The fields of the commands -/

/-- What the receiver reads is what the messages of the handler say. -/
theorem fields_of_convert (hjson : rt.JsonLaws) {k : Kind} (hk : messageKind data = some k)
    {r : ConversionResult} (hr : convert rt { data := data } snapshot = .ok r) :
    ∃ messages, handlerOf Float32 k rt { data := data } snapshot [] =
        .ok (messages, r.state_updates) ∧
      ∀ path, r.packets.map (fieldOf rt path) = messages.map fun m =>
        (Json.at? path m.payload).map (Json.reread rt.floatBack) := by
  obtain ⟨messages, hhandler, hpackets⟩ :=
    @convert_messages Float32 _ rt { data := data } snapshot r k hk hr
  refine ⟨messages, hhandler, fun path => ?_⟩
  have hhandled := @handled_of_ok Float32 _ rt { data := data } snapshot _ k hk hhandler
  have hsorted : ∀ m ∈ messages, m.payload.Sorted := by
    intro m hm
    obtain ⟨o, -, hcarries⟩ := exists_of_forall₂ hhandled.messages.flip hm
    exact hcarries.document.sorted
  clear hhandled hhandler hr
  generalize r.packets = packets at hpackets ⊢
  induction hpackets with
  | nil => rfl
  | cons hm _ ih =>
      obtain ⟨hdump, -⟩ := serialize_eq_ok.mp hm
      have hparse := hjson.parse_dump _ _ (hsorted _ List.mem_cons_self) hdump
      rw [List.map_cons, List.map_cons, ih fun m hm' => hsorted m (List.mem_cons_of_mem _ hm'),
        fieldOf, hparse, Option.bind_some, at?_reread]

/-- What is read of a document at a path, after its numbers were written and read. -/
def readAt (rt : Runtime Float32) (path : List Bytes) (j : Json Float32) :
    Option (Json Float32) :=
  (Json.at? path j).map (Json.reread rt.floatBack)

/-- A number is read at the path, or nothing. -/
def NumberAt (rt : Runtime Float32) (path : List Bytes) (j : Json Float32) : Prop :=
  ∀ v, readAt rt path j = some v → IsNumber v

variable {path : List Bytes} {j : Json Float32}

theorem numberAt_of_none (h : Json.at? path j = none) : NumberAt rt path j := by
  intro v hv
  rw [readAt, h] at hv
  exact absurd hv (Option.some_ne_none v).symm

theorem numberAt_unsigned {n : ℕ} (h : Json.at? path j = some (.number_unsigned n)) :
    NumberAt rt path j := by
  intro v hv
  rw [readAt, h] at hv
  obtain rfl := Option.some.inj hv
  trivial

/-- A float is read as a number if it is one. -/
theorem numberAt_float {a : Float32} (h : Json.at? path j = some (.number_float a)) :
    NumberAt rt path j ↔ rt.floatBack a ≠ none := by
  rw [NumberAt, readAt, h]
  simp only [Option.map_some, Option.some.injEq, forall_eq', Json.reread]
  cases rt.floatBack a with
  | none => exact iff_of_false id (not_not.mpr rfl)
  | some b => exact iff_of_true trivial (Option.some_ne_none b)

theorem forall_numericFields {P : List Bytes → Prop} :
    (∀ path ∈ numericFields, P path) ↔ P [str "param", str "az"] ∧ P [str "param", str "el"] ∧
      P [str "param", str "audio_mode", str "volume_mode", str "audio_volume_db"] := by
  simp only [numericFields, List.forall_mem_cons, List.not_mem_nil, false_imp_iff, implies_true,
    and_true]

theorem change_configuration_fields (rawConfig : UInt16) :
    ∀ path ∈ numericFields, NumberAt rt path (change_configuration_json rawConfig) := by
  rw [forall_numericFields]
  refine ⟨numberAt_of_none ?_, numberAt_of_none ?_, numberAt_of_none ?_⟩ <;>
    simp [Json.at?, change_configuration_json, findMember]

theorem cancellation_fields :
    ∀ path ∈ numericFields, NumberAt rt path cueing_order_cancellation_json := by
  rw [forall_numericFields]
  refine ⟨numberAt_of_none ?_, numberAt_of_none ?_, numberAt_of_none ?_⟩ <;>
    simp [Json.at?, cueing_order_cancellation_json, findMember]

/-- Of an emission control, only the volume is such a field. -/
theorem emission_fields (e : EmissionControl Float32) :
    (∀ path ∈ numericFields, NumberAt rt path (emission_control_json e)) ↔
      rt.floatBack e.audioVolumeDb ≠ none := by
  have haz : NumberAt rt [str "param", str "az"] (emission_control_json e) :=
    numberAt_of_none (by simp [Json.at?, emission_control_json, findMember])
  have hel : NumberAt rt [str "param", str "el"] (emission_control_json e) :=
    numberAt_of_none (by simp [Json.at?, emission_control_json, findMember])
  rw [forall_numericFields, and_iff_right haz, and_iff_right hel]
  apply numberAt_float
  simp [Json.at?, emission_control_json, findMember]

/-- A cueing command has no volume. -/
theorem cueing_volume {cueingType : UInt16} {has : Bool} {az el : Float32} {command : Json Float32}
    (h : cueing_order_json rt cueingType has az el = .ok command) (rest : Json Float32) :
    Json.at? [str "param", str "audio_mode", str "volume_mode", str "audio_volume_db"]
      (Json.set (str "meta") rest command) = none := by
  rw [cueing_order_json] at h
  obtain ⟨azimuth360, -, h⟩ := bind_eq_ok.mp h
  obtain ⟨elevation360, -, h⟩ := bind_eq_ok.mp h
  by_cases hmove : cueingType = 1
  · rw [if_pos hmove] at h
    obtain rfl := Except.ok.inj h
    simp [Json.at?, findMember]
  · rw [if_neg hmove] at h
    obtain ⟨az', -, h⟩ := bind_eq_ok.mp h
    obtain ⟨el', -, h⟩ := bind_eq_ok.mp h
    obtain rfl := Except.ok.inj h
    simp [Json.at?, findMember]

/-! ## The three paths to a command -/

/-- An `lround` that obeys the law, with a value of its own for what is no number. -/
def lroundWith (other : ℤ) (a : Float32) : ℤ := ((toRat a).map nearestInteger).getD other

theorem lroundWith_law (other : ℤ) : LroundLaw (lroundWith other) := by
  intro a q hq _
  rw [lroundWith, hq, Option.map_some, Option.getD_some]

/-- Where the messages do not depend on `lround`, only `null` is to be feared. -/
theorem carriesNumbers_of_messages (hjson : rt.JsonLaws) {k : Kind}
    (hk : messageKind data = some k) {messages : List (ConvertedMessage Float32)}
    {updates : List StateUpdate}
    (hhandler : ∀ f, handlerOf Float32 k { rt with lround := f } { data := data } snapshot [] =
      .ok (messages, updates))
    (haccepted : Accepted rt data snapshot) : CarriesNumbers rt data snapshot ↔
      ∀ m ∈ messages, ∀ path ∈ numericFields, NumberAt rt path m.payload := by
  have hfields : ∀ f r, convert { rt with lround := f } { data := data } snapshot = .ok r →
      ∀ path, r.packets.map (fieldOf rt path) = messages.map fun m => readAt rt path m.payload := by
    intro f r hr
    obtain ⟨messages', hmessages', hread⟩ := @fields_of_convert { rt with lround := f } data
      snapshot ⟨hjson.dump_eq_none, hjson.parse_dump⟩ k hk r hr
    obtain ⟨rfl, -⟩ := Prod.mk.inj (Except.ok.inj ((hhandler f).symm.trans hmessages'))
    exact hread
  constructor
  · intro h m hm path hpath v hv
    obtain ⟨r₀, hr₀, -⟩ := haccepted
    have hr : convert { rt with lround := lroundWith 0 } { data := data } snapshot = .ok r₀ := by
      have hown : handlerOf Float32 k rt { data := data } snapshot [] = .ok (messages, updates) :=
        hhandler rt.lround
      rw [convert_eq, hk] at hr₀ ⊢
      simp only [hown, hhandler] at hr₀ ⊢
      exact hr₀
    have hmem : readAt rt path m.payload ∈ r₀.packets.map (fieldOf rt path) := by
      rw [hfields _ _ hr]
      exact List.mem_map_of_mem hm
    obtain ⟨p, hp, hfield⟩ := List.mem_map.mp hmem
    exact h.number _ (lroundWith_law 0) _ hr path hpath p hp v (hfield.trans hv)
  · intro h
    constructor
    · intro f hf r hr path hpath p hp v hv
      have hmem : fieldOf rt path p ∈ messages.map fun m => readAt rt path m.payload := by
        rw [← hfields f r hr]
        exact List.mem_map_of_mem hp
      obtain ⟨m, hm, hfield⟩ := List.mem_map.mp hmem
      exact h m hm path hpath v (hfield.trans hv)
    · intro f g hf hg r r' hr hr' path hpath
      rw [hfields f r hr, hfields g r' hr']

/-- A cueing order is one command, which may depend on `lround`. -/
theorem carriesNumbers_of_emits {j : (Float32 → ℤ) → Json Float32}
    (hj : ∀ f, Emits { rt with lround := f } data snapshot (j f)) :
    CarriesNumbers rt data snapshot ↔ ∀ path ∈ numericFields,
      (∀ f, LroundLaw f → NumberAt rt path (j f)) ∧
        ∀ f g, LroundLaw f → LroundLaw g → readAt rt path (j f) = readAt rt path (j g) := by
  have hfields : ∀ f, ∃ r, convert { rt with lround := f } { data := data } snapshot = .ok r ∧
      ∃ p, r.packets = [p] ∧ ∀ path, fieldOf rt path p = readAt rt path (j f) := by
    intro f
    obtain ⟨r, p, hr, hp, -, -, hparse⟩ := hj f
    refine ⟨r, hr, p, hp, fun path => ?_⟩
    have hparse' : rt.parse p.data = some ((j f).reread rt.floatBack) := hparse
    rw [fieldOf, hparse', Option.bind_some, at?_reread, readAt]
  constructor
  · intro h path hpath
    constructor
    · intro f hf v hv
      obtain ⟨r, hr, p, hp, hfield⟩ := hfields f
      exact h.number f hf r hr path hpath p (hp ▸ List.mem_singleton_self p) v
        ((hfield path).trans hv)
    · intro f g hf hg
      obtain ⟨r, hr, p, hp, hfield⟩ := hfields f
      obtain ⟨r', hr', p', hp', hfield'⟩ := hfields g
      have hsame := h.specified f g hf hg r r' hr hr' path hpath
      rw [hp, hp', List.map_singleton, List.map_singleton, hfield, hfield'] at hsame
      exact (List.cons.inj hsame).1
  · intro h
    constructor
    · intro f hf r hr path hpath p hp v hv
      obtain ⟨r', hr', p', hp', hfield⟩ := hfields f
      obtain rfl := Except.ok.inj (hr'.symm.trans hr)
      rw [hp', List.mem_singleton] at hp
      rw [hp, hfield] at hv
      exact (h path hpath).1 f hf v hv
    · intro f g hf hg r r' hr hr' path hpath
      obtain ⟨r₁, hr₁, p₁, hp₁, hfield₁⟩ := hfields f
      obtain ⟨r₂, hr₂, p₂, hp₂, hfield₂⟩ := hfields g
      obtain rfl := Except.ok.inj (hr₁.symm.trans hr)
      obtain rfl := Except.ok.inj (hr₂.symm.trans hr')
      rw [hp₁, hp₂, List.map_singleton, List.map_singleton, hfield₁, hfield₂,
        (h path hpath).2 f g hf hg]

/-- A wrapped number is rounded as the law says. -/
theorem lround_eq {c : Prop} {a : Float32} (ha : NaNWhen c 0 360 a) (hc : ¬ c)
    {f g : Float32 → ℤ} (hf : LroundLaw f) (hg : LroundLaw g) : f a = g a := by
  obtain ⟨q, hq, h0, h360⟩ := ha.2 hc
  have hlarge : |q| < 2 ^ 63 := by
    rw [abs_of_nonneg h0]
    norm_num
    linarith
  rw [hf a q hq hlarge, hg a q hq hlarge]

/-- A float is dumped as a number unless it is NaN. -/
theorem floatBack_iff (hnan : NaNLaws rt) {c : Prop} {a : Float32} (ha : NaNWhen c 0 360 a) :
    rt.floatBack a ≠ none ↔ ¬ c := by
  rw [ne_eq, hnan.null]
  constructor
  · intro h hc
    exact h (ha.1 hc).toRat_eq_none
  · intro hc h
    obtain ⟨q, hq, -⟩ := ha.2 hc
    rw [h] at hq
    exact Option.some_ne_none q hq.symm

/-- `MOVE` writes the wrapped angles as they are. -/
theorem move_sent (hjson : rt.JsonLaws) (hnan : NaNLaws rt) (hatan : Atan2Range rt)
    (hfuel : 2 ≤ rt.fuel) (hk : messageKind data = some .cueing_order) (hsize : 38 ≤ data.length)
    (hmove : u16At data 22 = 1) : ∃ azimuth360 elevation360,
      (¬ NumberMissing data → NaNWhen False 0 360 azimuth360) ∧
      NaNWhen (NumberMissing data) 0 360 elevation360 ∧
      ∀ f, ∃ j goTo, Emits { rt with lround := f } data snapshot j ∧
        Move j goTo azimuth360 elevation360 ∧ Json.at? [str "param", str "audio_mode",
          str "volume_mode", str "audio_volume_db"] j = none := by
  obtain ⟨az, el, azimuth360, elevation360, hangles, haz, hel, haz', hel'⟩ :=
    wrapped_angles hnan hatan hfuel hk
  refine ⟨azimuth360, elevation360, haz', hel', fun f => ?_⟩
  obtain ⟨command, hcommand, hMove⟩ := @move_command Float32 _ { rt with lround := f } _ _ _ _
    haz hel (hasCoordinates data) (cueingMeta data)
  have hvolume := cueing_volume hcommand (cueingMeta data)
  rw [← hmove] at hcommand
  exact ⟨_, _, @cueing_emits Float32 _ { rt with lround := f } data snapshot
    ⟨hjson.dump_eq_none, hjson.parse_dump⟩ hk hsize _ _ hangles _ hcommand, hMove, hvolume⟩

theorem move_carries_iff (hjson : rt.JsonLaws) (hnan : NaNLaws rt) (hatan : Atan2Range rt)
    (hfuel : 2 ≤ rt.fuel) (hk : messageKind data = some .cueing_order) (hsize : 38 ≤ data.length)
    (hmove : u16At data 22 = 1) : CarriesNumbers rt data snapshot ↔ ¬ NumberMissing data := by
  obtain ⟨azimuth360, elevation360, haz', hel', hsent⟩ :=
    move_sent hjson hnan hatan hfuel hk hsize hmove
  choose j goTo hemits hMove hvolume using hsent
  rw [carriesNumbers_of_emits hemits, forall_numericFields]
  constructor
  · rintro ⟨-, ⟨helevation, -⟩, -⟩
    rw [← floatBack_iff hnan hel', ← numberAt_float (hMove (lroundWith 0)).el]
    exact helevation _ (lroundWith_law 0)
  · intro hno
    refine ⟨⟨fun f _ => ?_, fun f g _ _ => ?_⟩, ⟨fun f _ => ?_, fun f g _ _ => ?_⟩,
      ⟨fun f _ => numberAt_of_none (hvolume f), fun f g _ _ => ?_⟩⟩
    · rw [numberAt_float (hMove f).az, floatBack_iff hnan (haz' hno)]
      exact id
    · rw [readAt, readAt, (hMove f).az, (hMove g).az]
    · rwa [numberAt_float (hMove f).el, floatBack_iff hnan hel']
    · rw [readAt, readAt, (hMove f).el, (hMove g).el]
    · rw [readAt, readAt, hvolume f, hvolume g]

/-- `DELTA` writes what `lround` makes of them. -/
theorem delta_sent (hjson : rt.JsonLaws) (hnan : NaNLaws rt) (hatan : Atan2Range rt)
    (hfuel : 2 ≤ rt.fuel) (hk : messageKind data = some .cueing_order) (hsize : 38 ≤ data.length)
    (hdelta : u16At data 22 ≠ 1) : ∃ azimuth360 elevation360,
      (¬ NumberMissing data → NaNWhen False 0 360 azimuth360) ∧
      NaNWhen (NumberMissing data) 0 360 elevation360 ∧
      ∀ f, ∃ j, Emits { rt with lround := f } data snapshot j ∧
        Delta j (UInt16.ofInt (f azimuth360)).toNat (UInt16.ofInt (f elevation360)).toNat ∧
        Json.at? [str "param", str "audio_mode", str "volume_mode", str "audio_volume_db"] j =
          none := by
  obtain ⟨az, el, azimuth360, elevation360, hangles, haz, hel, haz', hel'⟩ :=
    wrapped_angles hnan hatan hfuel hk
  refine ⟨azimuth360, elevation360, haz', hel', fun f => ?_⟩
  obtain ⟨command, hcommand, hDelta⟩ := @delta_command Float32 _ { rt with lround := f } _ _ _ _
    _ hdelta haz hel (hasCoordinates data) (cueingMeta data)
  exact ⟨_, @cueing_emits Float32 _ { rt with lround := f } data snapshot
    ⟨hjson.dump_eq_none, hjson.parse_dump⟩ hk hsize _ _ hangles _ hcommand, hDelta,
    cueing_volume hcommand _⟩

theorem delta_carries_iff (hjson : rt.JsonLaws) (hnan : NaNLaws rt) (hatan : Atan2Range rt)
    (hfuel : 2 ≤ rt.fuel) (hk : messageKind data = some .cueing_order) (hsize : 38 ≤ data.length)
    (hdelta : u16At data 22 ≠ 1) : CarriesNumbers rt data snapshot ↔ ¬ NumberMissing data := by
  obtain ⟨azimuth360, elevation360, haz', hel', hsent⟩ :=
    delta_sent hjson hnan hatan hfuel hk hsize hdelta
  choose j hemits hDelta hvolume using hsent
  rw [carriesNumbers_of_emits hemits, forall_numericFields]
  constructor
  · rintro ⟨-, ⟨-, hsame⟩, -⟩ hmissing
    -- two functions that obey the law, and differ on NaN
    have hother : ∀ other, lroundWith other elevation360 = other := by
      intro other
      rw [lroundWith, (hel'.1 hmissing).toRat_eq_none, Option.map_none, Option.getD_none]
    have heq := hsame (lroundWith 0) (lroundWith 1) (lroundWith_law 0) (lroundWith_law 1)
    rw [readAt, readAt, (hDelta _).el, (hDelta _).el, hother, hother] at heq
    exact absurd (Json.number_unsigned.inj (Option.some.inj heq)) (by decide)
  · intro hno
    refine ⟨⟨fun f _ => numberAt_unsigned (hDelta f).az, fun f g hf hg => ?_⟩,
      ⟨fun f _ => numberAt_unsigned (hDelta f).el, fun f g hf hg => ?_⟩,
      ⟨fun f _ => numberAt_of_none (hvolume f), fun f g _ _ => ?_⟩⟩
    · rw [readAt, readAt, (hDelta f).az, (hDelta g).az, lround_eq (haz' hno) id hf hg]
    · rw [readAt, readAt, (hDelta f).el, (hDelta g).el, lround_eq hel' hno hf hg]
    · rw [readAt, readAt, hvolume f, hvolume g]

/-- **No missing number.** An accepted datagram becomes commands with all of their
numbers if and only if none of the floats that a command uses is missing. -/
theorem carries_numbers_iff (hjson : rt.JsonLaws) (hnan : NaNLaws rt) (hatan : Atan2Range rt)
    (hfuel : 2 ≤ rt.fuel) (haccepted : Accepted rt data snapshot) :
    CarriesNumbers rt data snapshot ↔ ¬ NumberMissing data := by
  obtain ⟨r, hr, hne⟩ := haccepted
  obtain ⟨k, hk⟩ : ∃ k, messageKind data = some k := by
    obtain ⟨k, hk, -⟩ := kind_of_accepted hr hne
    exact ⟨k, hk⟩
  cases k with
  | cueing_order =>
      have hsize := size_of_accepted hk (by decide) ⟨r, hr, hne⟩
      by_cases hmove : u16At data 22 = 1
      · exact move_carries_iff hjson hnan hatan hfuel hk hsize hmove
      · exact delta_carries_iff hjson hnan hatan hfuel hk hsize hmove
  | emission_control =>
      have hsize : 838 ≤ ({ data := data } : RawPacket).data.length :=
        size_of_accepted hk (by decide) ⟨r, hr, hne⟩
      rw [carriesNumbers_of_messages hjson hk
        (fun f => handle_emission_control_spec { rt with lround := f } _ snapshot) ⟨r, hr, hne⟩,
        NumberMissing, hk]
      rw [if_pos hsize, List.forall_mem_singleton, emission_fields, ne_eq, hnan.null]
      exact Iff.rfl
  | change_configuration =>
      rw [carriesNumbers_of_messages hjson hk
        (fun f => handle_change_configuration_spec { rt with lround := f } _ snapshot) ⟨r, hr, hne⟩,
        NumberMissing, hk]
      refine iff_of_true ?_ id
      intro m hm
      obtain ⟨b, -, rfl⟩ := List.mem_map.mp hm
      exact change_configuration_fields b.configuration
  | cueing_order_cancellation =>
      rw [carriesNumbers_of_messages hjson hk
        (fun f => handle_cancellation_spec { rt with lround := f } _ snapshot) ⟨r, hr, hne⟩,
        NumberMissing, hk]
      refine iff_of_true ?_ id
      intro m hm
      split_ifs at hm
      · rw [List.mem_singleton.mp hm]
        exact cancellation_fields
      · exact absurd hm List.not_mem_nil

end

/-! ## A runtime for the positive x axis -/

/-- Floats are written in millionths. -/
def millionths : JsonText.FloatText Float32 :=
  scaledText (fun a => (toRat a).map fun q => ⌊q * 10 ^ 6⌋)
    (fun n => Float32.ofScientific n.natAbs true 6)

/-- The angle of a point on the positive x axis is 0; a NaN is kept. -/
def onAxis : Runtime Float32 := withText millionths {
  sqrt := Float32.sqrt
  atan2 := fun y x => if y.isNaN || x.isNaN then Float32.ofBits 0x7FC00000 else Float32.ofBits 0
  lround := lroundWith 0
  dump := fun _ => none
  parse := fun _ => none
  floatBack := some
  asio := .posix
  fuel := 2 }

theorem onAxis_nanLaws : NaNLaws onAxis where
  sqrt a := isNaN_sqrt_iff (s := .positive) rfl
  atan2 y x := by
    show IsNaN (if y.isNaN || x.isNaN then Float32.ofBits 0x7FC00000 else Float32.ofBits 0) ↔ _
    rw [← @isNaN_iff y, ← @isNaN_iff x, ← Bool.or_eq_true]
    split_ifs with h
    · exact iff_of_true rfl h
    · exact iff_of_false (not_isNaN_of_toRat toRat_0) h
  null a := by
    show (millionths.write a).map _ = none ↔ _
    rw [Option.map_eq_none_iff]
    show ((toRat a).map _).map _ = none ↔ _
    rw [Option.map_eq_none_iff, Option.map_eq_none_iff]

theorem onAxis_atan2Range : Atan2Range onAxis := by
  intro y x
  show IsNaN (if y.isNaN || x.isNaN then Float32.ofBits 0x7FC00000 else Float32.ofBits 0) ∨
    (-kPi Float32 ≤ (if y.isNaN || x.isNaN then Float32.ofBits 0x7FC00000 else Float32.ofBits 0) ∧
      (if y.isNaN || x.isNaN then Float32.ofBits 0x7FC00000 else Float32.ofBits 0) ≤ kPi Float32)
  split_ifs
  · exact Or.inl rfl
  · exact Or.inr (by decide)

/-- A target one metre ahead. -/
def ahead : Bytes := position 1 0x3F800000 0 0

/-- Of a target on the x axis. -/
theorem carries_numbers_iff_ahead : CarriesNumbers onAxis ahead {} := by
  obtain ⟨_, _, -, -, hsent⟩ := @move_sent onAxis ahead {} (jsonLaws_withText _ _) onAxis_nanLaws
    onAxis_atan2Range (by decide) (by decide) (by decide) (by decide)
  obtain ⟨_, _, hj, -⟩ := hsent (lroundWith 0)
  have hx : u32At ahead 40 = 0x3F800000 := by decide
  have hone : (Float32.ofBits 0x3F800000).toModel.unpack =
      .finite .positive 8388608 (-23) (by decide) := rfl
  refine (carries_numbers_iff (jsonLaws_withText _ _) onAxis_nanLaws onAxis_atan2Range (by decide)
    hj.accepted).mpr ?_
  rw [numberMissing_cueing (by decide)]
  rintro ⟨-, h | h | ⟨-, h⟩⟩
  · rw [floatAt, hx] at h
    exact not_isNaN_of_toRat (toRat_const hone) h
  · exact not_isNaN_of_toRat toRat_0 h
  · exact not_isNaN_of_toRat toRat_0 h

/-- A target of which one coordinate is NaN. -/
def nowhere : Bytes := position 1 0x7FC00000 0 0

/-- A NaN coordinate is sent as `null`. -/
theorem null_sent : ∃ r p, convert onAxis { data := nowhere } {} = .ok r ∧ r.packets = [p] ∧
    fieldOf onAxis [str "param", str "el"] p = some .null := by
  obtain ⟨_, elevation360, -, hel, hsent⟩ := @move_sent onAxis nowhere {} (jsonLaws_withText _ _)
    onAxis_nanLaws onAxis_atan2Range (by decide) (by decide) (by decide) (by decide)
  obtain ⟨j, _, ⟨r, p, hr, hp, -, -, hparse⟩, hMove, -⟩ := hsent (lroundWith 0)
  have hmissing : NumberMissing nowhere := by
    rw [numberMissing_cueing (by decide)]
    exact ⟨by decide, Or.inl rfl⟩
  have hnull : onAxis.floatBack elevation360 = none :=
    (onAxis_nanLaws.null _).mpr (hel.1 hmissing).toRat_eq_none
  have hparse' : onAxis.parse p.data = some (j.reread onAxis.floatBack) := hparse
  refine ⟨r, p, hr, hp, ?_⟩
  rw [fieldOf, hparse', Option.bind_some, at?_reread, hMove.el, Option.map_some, Json.reread, hnull]
  rfl

end CmsProxy.MissingNumbers
