/-
What `loadAppConfig` makes of a document.

`read_root_ok_iff` lists what a document must have to be loaded and what is kept
of it, place by place (`Loaded`); everything else rests on that list.

The range of a number is tested after the conversion to `int`, so what is in
range then need not have been: a value whose conversion lands in the range is
taken, whatever it is. The values that do are listed by kind (`Aliases`), and
numbers are taken exactly in all documents but those that are loaded with one of
them (`numbers_exact_iff`).

The destinations go into a map, one after the other. Of several elements with one
id the last one counts, for the map and for the engine that is given it
(`last_declaration_counts`).
-/
import CmsProxy.Config
import CmsProxy.Engine
import CmsProxy.Registers

set_option autoImplicit false

namespace CmsProxy.Loading

open BigEndian (Bytes)
open Interfaces JsonValue Config
open Registers (lastWrite lastWrite_append)

/-! ## Sequences -/

section

variable {ε α β : Type}

/-- A sequence that returns has returned at every step. -/
theorem except_bind_eq_ok {x : Except ε α} {f : α → Except ε β} {b : β} :
    (x >>= f) = .ok b ↔ ∃ a, x = .ok a ∧ f a = .ok b := by
  cases x with
  | ok a =>
      constructor
      · intro h
        exact ⟨a, rfl, h⟩
      · rintro ⟨_, ha, h⟩
        rwa [← Except.ok.inj ha] at h
  | error e =>
      constructor
      · intro h
        exact absurd h (by simp [bind, Except.bind])
      · rintro ⟨_, ha, -⟩
        exact absurd ha (by simp)

/-- A check that throws, in front of a computation. -/
theorem guard_eq_ok {p : Prop} [Decidable p] {e : ε} {x : Except ε β} {b : β} :
    (do if p then throw e
        x) = .ok b ↔ ¬ p ∧ x = .ok b := by
  by_cases hp : p
  · simp [hp, bind, Except.bind, throw, throwThe, MonadExceptOf.throw]
  · simp [hp]

end

section

variable {F : Type} {src : ConfigSource F}

/-! ## One value -/

theorem read_required_ok {T : Type} {get : Json F → Option T} {j : Json F}
    {key section_name : Bytes} {t : T} :
    read_required get j key section_name = .ok t ↔ ∃ v, j.find? key = some v ∧ get v = some t := by
  rw [read_required]
  cases j.find? key with
  | none => simp
  | some v => cases hv : get v <;> simp [hv]

theorem get_string_eq {v : Json F} {s : Bytes} : get_string v = some s ↔ v = .string s := by
  cases v <;> simp [get_string]

/-- The value is a number or a boolean, its conversion to `int` is from `lo` to
65535, and `p` is that. -/
def Taken (src : ConfigSource F) (lo : ℤ) (v : Json F) (p : UInt16) : Prop :=
  ∃ i, get_int src v = some i ∧ lo ≤ i.toInt ∧ i.toInt ≤ 65535 ∧ UInt16.ofInt i.toInt = p

theorem read_port_ok {j : Json F} {key section_name : Bytes} {p : UInt16} :
    read_port src j key section_name = .ok p ↔
      ∃ v, j.find? key = some v ∧ Taken src 1 v p := by
  have hrange : ∀ i : Int32, ¬ (i < 1 ∨ 65535 < i) ↔ 1 ≤ i.toInt ∧ i.toInt ≤ 65535 := by
    intro i
    rw [Int32.lt_iff_toInt_lt, Int32.lt_iff_toInt_lt, not_or, not_lt, not_lt]
    rfl
  simp only [read_port, except_bind_eq_ok, read_required_ok, guard_eq_ok, hrange]
  constructor
  · rintro ⟨i, ⟨v, hv, hi⟩, ⟨hlo, hhi⟩, hp⟩
    exact ⟨v, hv, i, hi, hlo, hhi, Except.ok.inj hp⟩
  · rintro ⟨v, hv, i, hi, hlo, hhi, hp⟩
    exact ⟨i, ⟨v, hv, hi⟩, ⟨hlo, hhi⟩, congrArg Except.ok hp⟩

/-! ## The destinations -/

/-- An element of `lrad_destinations`, and the destination made of it. -/
structure Declares (src : ConfigSource F) (item : Json F) (d : LradDestination) : Prop where
  id : ∃ v, item.find? (str "id") = some v ∧ Taken src 0 v d.id
  ip : item.find? (str "ip") = some (.string d.ip_address)
  port : ∃ v, item.find? (str "port") = some v ∧ Taken src 1 v d.port

theorem is_object_of_find? {j v : Json F} {key : Bytes} (h : j.find? key = some v) :
    is_object j = true := by
  cases j <;> simp_all [Json.find?, is_object]

theorem read_destination_ok {item : Json F} {d : LradDestination} :
    read_destination src item = .ok d ↔ Declares src item d := by
  have hrange : ∀ i : Int32, ¬ (i < 0 ∨ 65535 < i) ↔ 0 ≤ i.toInt ∧ i.toInt ≤ 65535 := by
    intro i
    rw [Int32.lt_iff_toInt_lt, Int32.lt_iff_toInt_lt, not_or, not_lt, not_lt]
    rfl
  simp only [read_destination, guard_eq_ok, not_not, except_bind_eq_ok, read_required_ok, hrange,
    get_string_eq, read_port_ok]
  constructor
  · rintro ⟨-, i, ⟨v, hv, hi⟩, ⟨hlo, hhi⟩, ip, ⟨_, hip, rfl⟩, port, hport, hd⟩
    obtain rfl := Except.ok.inj hd
    exact ⟨⟨v, hv, i, hi, hlo, hhi, rfl⟩, hip, hport⟩
  · rintro ⟨⟨v, hv, i, hi, hlo, hhi, hid⟩, hip, hport⟩
    refine ⟨is_object_of_find? hv, i, ⟨v, hv, hi⟩, ⟨hlo, hhi⟩, _, ⟨_, hip, rfl⟩, _, hport, ?_⟩
    rw [hid]
    rfl

/-- The table of a row of destinations. -/
def tableOf (dests : List LradDestination) : RoutingTable :=
  dests.foldl (fun t d => t.insert d.id d) ∅

theorem read_destinations_ok {items : List (Json F)} {t t' : RoutingTable} :
    read_destinations src items t = .ok t' ↔
      ∃ dests, List.Forall₂ (Declares src) items dests ∧
        dests.foldl (fun t d => t.insert d.id d) t = t' := by
  induction items generalizing t with
  | nil =>
      simp only [read_destinations, List.forall₂_nil_left_iff, exists_eq_left, List.foldl_nil,
        Except.ok.injEq]
  | cons item items ih =>
      simp only [read_destinations, except_bind_eq_ok, read_destination_ok, ih,
        List.forall₂_cons_left_iff]
      constructor
      · rintro ⟨d, hd, dests, hdests, ht⟩
        exact ⟨d :: dests, ⟨d, dests, hd, hdests, rfl⟩, ht⟩
      · rintro ⟨_, ⟨d, dests, hd, hdests, rfl⟩, ht⟩
        exact ⟨d, hd, dests, hdests, ht⟩

/-! ## The document -/

/-- A member of a section. -/
theorem at?_section {root v : Json F} {sec key : Bytes} :
    root.at? [sec, key] = some v ↔ ∃ j, root.find? sec = some j ∧ j.find? key = some v := by
  simp only [Json.at?, Option.bind_eq_some_iff, Option.some.injEq, exists_eq_right]

theorem read_section_ok {root j : Json F} {key what : Bytes} :
    read_section root key what = .ok j ↔ root.find? key = some j ∧ is_object j = true := by
  rw [read_section]
  cases root.find? key with
  | none => simp
  | some j' =>
      show (if is_object j' = true then Except.ok j' else _) = _ ↔ _
      split_ifs with hj
      · rw [Except.ok.injEq, Option.some.injEq]
        constructor
        · rintro rfl
          exact ⟨rfl, hj⟩
        · rintro ⟨h, -⟩
          exact h
      · constructor
        · intro h
          exact absurd h (by simp)
        · rintro ⟨h, hobject⟩
          exact absurd (Option.some.inj h ▸ hobject) hj

theorem read_array_ok {root : Json F} {key what : Bytes} {items : List (Json F)} :
    read_array root key what = .ok items ↔ root.find? key = some (.array items) := by
  rw [read_array]
  split
  · rename_i items' hitems
    rw [hitems, Except.ok.injEq, Option.some.injEq, Json.array.injEq]
  · rename_i hne
    constructor
    · intro h
      exact absurd h (by simp)
    · intro h
      exact absurd h (hne items)

theorem tableOf_isEmpty {dests : List LradDestination} :
    (tableOf dests).isEmpty = true ↔ dests = [] := by
  constructor
  · intro hempty
    rcases List.eq_nil_or_concat dests with rfl | ⟨init, d, rfl⟩
    · rfl
    · rw [tableOf, List.concat_eq_append, List.foldl_append] at hempty
      exact absurd hempty (by simp)
  · rintro rfl
    rfl

/-- A loaded document, and what is kept of it. -/
structure Loaded (src : ConfigSource F) (root : Json F) (cfg : AppConfig) : Prop where
  udp_listen_ip : root.at? [str "udp", str "listen_ip"] = some (.string cfg.udp_listen_ip)
  udp_multicast_group :
    root.at? [str "udp", str "multicast_group"] = some (.string cfg.udp_multicast_group)
  udp_multicast_port : ∃ v, root.at? [str "udp", str "multicast_port"] = some v ∧
    Taken src 1 v cfg.udp_multicast_port
  tcp_default_target_ip :
    root.at? [str "tcp", str "default_target_ip"] = some (.string cfg.tcp_default_target_ip)
  tcp_default_target_port : ∃ v, root.at? [str "tcp", str "default_target_port"] = some v ∧
    Taken src 1 v cfg.tcp_default_target_port
  tcp_unicast_target_ip :
    root.at? [str "tcp", str "unicast_target_ip"] = some (.string cfg.tcp_unicast_target_ip)
  ack_target_ip : root.at? [ack_section_name root, str "ip"] = some (.string cfg.ack_target_ip)
  ack_target_port : ∃ v, root.at? [ack_section_name root, str "port"] = some v ∧
    Taken src 1 v cfg.ack_target_port
  lrad_destinations : ∃ items dests,
    root.find? (str "lrad_destinations") = some (.array items) ∧ dests ≠ [] ∧
    List.Forall₂ (Declares src) items dests ∧ tableOf dests = cfg.lrad_destinations

/-- **What is loaded**, and as what. -/
theorem read_root_ok_iff {root : Json F} {cfg : AppConfig} :
    read_root src root = .ok cfg ↔ Loaded src root cfg := by
  simp only [read_root, except_bind_eq_ok, read_section_ok, read_array_ok, read_required_ok,
    get_string_eq, read_port_ok, read_destinations_ok, guard_eq_ok]
  constructor
  · rintro ⟨udp, ⟨hudp, -⟩, tcp, ⟨htcp, -⟩, ack, ⟨hack, -⟩, items, hitems, _, ⟨_, hlisten, rfl⟩, _,
      ⟨_, hgroup, rfl⟩, _, ⟨v, hv, hport⟩, _, ⟨_, hdefault, rfl⟩, _, ⟨v', hv', hport'⟩, _,
      ⟨_, hunicast, rfl⟩, _, ⟨_, hip, rfl⟩, _, ⟨v'', hv'', hport''⟩, _, ⟨dests, hdests, rfl⟩, hne,
      hcfg⟩
    obtain rfl := Except.ok.inj hcfg
    refine ⟨at?_section.mpr ⟨udp, hudp, hlisten⟩, at?_section.mpr ⟨udp, hudp, hgroup⟩,
      ⟨v, at?_section.mpr ⟨udp, hudp, hv⟩, hport⟩, at?_section.mpr ⟨tcp, htcp, hdefault⟩,
      ⟨v', at?_section.mpr ⟨tcp, htcp, hv'⟩, hport'⟩, at?_section.mpr ⟨tcp, htcp, hunicast⟩,
      at?_section.mpr ⟨ack, hack, hip⟩, ⟨v'', at?_section.mpr ⟨ack, hack, hv''⟩, hport''⟩,
      items, dests, hitems, ?_, hdests, rfl⟩
    intro hnil
    exact hne (tableOf_isEmpty.mpr hnil)
  · intro h
    obtain ⟨udp, hudp, hlisten⟩ := at?_section.mp h.udp_listen_ip
    obtain ⟨tcp, htcp, hdefault⟩ := at?_section.mp h.tcp_default_target_ip
    obtain ⟨ack, hack, hip⟩ := at?_section.mp h.ack_target_ip
    -- a member of a section is looked up in that section
    have hmember : ∀ {sec key : Bytes} {j v : Json F}, root.find? sec = some j →
        root.at? [sec, key] = some v → j.find? key = some v := by
      intro sec key j v hj hv
      obtain ⟨j', hj', hv'⟩ := at?_section.mp hv
      rwa [Option.some.inj (hj.symm.trans hj')]
    obtain ⟨v, hv, hport⟩ := h.udp_multicast_port
    obtain ⟨v', hv', hport'⟩ := h.tcp_default_target_port
    obtain ⟨v'', hv'', hport''⟩ := h.ack_target_port
    obtain ⟨items, dests, hitems, hne, hdests, htable⟩ := h.lrad_destinations
    refine ⟨udp, ⟨hudp, is_object_of_find? hlisten⟩, tcp, ⟨htcp, is_object_of_find? hdefault⟩, ack,
      ⟨hack, is_object_of_find? hip⟩, items, hitems, _, ⟨_, hlisten, rfl⟩, _,
      ⟨_, hmember hudp h.udp_multicast_group, rfl⟩, _, ⟨v, hmember hudp hv, hport⟩, _,
      ⟨_, hdefault, rfl⟩, _, ⟨v', hmember htcp hv', hport'⟩, _,
      ⟨_, hmember htcp h.tcp_unicast_target_ip, rfl⟩, _, ⟨_, hip, rfl⟩, _,
      ⟨v'', hmember hack hv'', hport''⟩, _, ⟨dests, hdests, htable⟩, ?_, rfl⟩
    rw [← htable]
    exact fun hempty => hne (tableOf_isEmpty.mp hempty)

/-- What is loaded from a file is what is loaded from the document in it. -/
theorem loadAppConfig_ok_iff {config_path : Bytes} {cfg : AppConfig} :
    loadAppConfig src config_path = .ok cfg ↔
      ∃ root, (src.file config_path).bind src.extract = some root ∧ Loaded src root cfg := by
  rw [loadAppConfig]
  cases src.file config_path with
  | none => simp
  | some text =>
      cases hroot : src.extract text with
      | none => simp [hroot]
      | some root => simp [hroot, read_root_ok_iff]

/-! ## Which documents are loaded -/

/-- A number as it is tested: from `lo` to 65535. -/
def InRange (lo n : ℤ) : Prop := lo ≤ n ∧ n ≤ 65535

/-- The value passes the test of a number. -/
def Converts (src : ConfigSource F) (lo : ℤ) (v : Json F) : Prop :=
  ∃ i, get_int src v = some i ∧ InRange lo i.toInt

theorem converts_iff {lo : ℤ} {v : Json F} : Converts src lo v ↔ ∃ p, Taken src lo v p := by
  constructor
  · rintro ⟨i, hi, hlo, hhi⟩
    exact ⟨_, i, hi, hlo, hhi, rfl⟩
  · rintro ⟨_, i, hi, hlo, hhi, -⟩
    exact ⟨i, hi, hlo, hhi⟩

/-- An element of `lrad_destinations` passes its tests. -/
structure CheckedItem (src : ConfigSource F) (item : Json F) : Prop where
  id : ∃ v, item.find? (str "id") = some v ∧ Converts src 0 v
  ip : ∃ s, item.find? (str "ip") = some (.string s)
  port : ∃ v, item.find? (str "port") = some v ∧ Converts src 1 v

/-- The tests of the loader. -/
structure Checked (src : ConfigSource F) (root : Json F) : Prop where
  texts : ∀ path ∈ [[str "udp", str "listen_ip"], [str "udp", str "multicast_group"],
      [str "tcp", str "default_target_ip"], [str "tcp", str "unicast_target_ip"],
      [ack_section_name root, str "ip"]],
    ∃ s, root.at? path = some (.string s)
  ports : ∀ path ∈ [[str "udp", str "multicast_port"], [str "tcp", str "default_target_port"],
      [ack_section_name root, str "port"]],
    ∃ v, root.at? path = some v ∧ Converts src 1 v
  destinations : ∃ items, root.find? (str "lrad_destinations") = some (.array items) ∧
    items ≠ [] ∧ ∀ item ∈ items, CheckedItem src item

theorem checkedItem_iff {item : Json F} : CheckedItem src item ↔ ∃ d, Declares src item d := by
  constructor
  · rintro ⟨⟨v, hv, hid⟩, ⟨s, hs⟩, ⟨v', hv', hport⟩⟩
    obtain ⟨id, hid⟩ := converts_iff.mp hid
    obtain ⟨port, hport⟩ := converts_iff.mp hport
    exact ⟨⟨id, s, port⟩, ⟨v, hv, hid⟩, hs, ⟨v', hv', hport⟩⟩
  · rintro ⟨d, ⟨v, hv, hid⟩, hs, ⟨v', hv', hport⟩⟩
    exact ⟨⟨v, hv, converts_iff.mpr ⟨_, hid⟩⟩, ⟨_, hs⟩, ⟨v', hv', converts_iff.mpr ⟨_, hport⟩⟩⟩

/-- Elements that pass are destinations, one each. -/
theorem exists_declares {items : List (Json F)} (h : ∀ item ∈ items, CheckedItem src item) :
    ∃ dests, List.Forall₂ (Declares src) items dests := by
  induction items with
  | nil => exact ⟨[], .nil⟩
  | cons item items ih =>
      rw [List.forall_mem_cons] at h
      obtain ⟨d, hd⟩ := checkedItem_iff.mp h.1
      obtain ⟨dests, hdests⟩ := ih h.2
      exact ⟨d :: dests, .cons hd hdests⟩

/-- **Which documents are loaded**: those that pass all tests. -/
theorem read_root_returns_iff {root : Json F} :
    (∃ cfg, read_root src root = .ok cfg) ↔ Checked src root := by
  simp only [read_root_ok_iff]
  constructor
  · rintro ⟨cfg, h⟩
    obtain ⟨v, hv, hport⟩ := h.udp_multicast_port
    obtain ⟨v', hv', hport'⟩ := h.tcp_default_target_port
    obtain ⟨v'', hv'', hport''⟩ := h.ack_target_port
    obtain ⟨items, dests, hitems, hne, hdests, -⟩ := h.lrad_destinations
    constructor
    · simp only [List.forall_mem_cons, List.not_mem_nil, false_implies, implies_true, and_true]
      exact ⟨⟨_, h.udp_listen_ip⟩, ⟨_, h.udp_multicast_group⟩, ⟨_, h.tcp_default_target_ip⟩,
        ⟨_, h.tcp_unicast_target_ip⟩, ⟨_, h.ack_target_ip⟩⟩
    · simp only [List.forall_mem_cons, List.not_mem_nil, false_implies, implies_true, and_true]
      exact ⟨⟨v, hv, converts_iff.mpr ⟨_, hport⟩⟩, ⟨v', hv', converts_iff.mpr ⟨_, hport'⟩⟩,
        ⟨v'', hv'', converts_iff.mpr ⟨_, hport''⟩⟩⟩
    · refine ⟨items, hitems, ?_, ?_⟩
      · rintro rfl
        exact hne (List.forall₂_nil_left_iff.mp hdests)
      · intro item hitem
        obtain ⟨d, -, hd⟩ := exists_of_forall₂ hdests hitem
        exact checkedItem_iff.mpr ⟨d, hd⟩
  · rintro ⟨htexts, hports, items, hitems, hne, hchecked⟩
    simp only [List.forall_mem_cons, List.not_mem_nil, false_implies, implies_true,
      and_true] at htexts hports
    obtain ⟨⟨s, hs⟩, ⟨s', hs'⟩, ⟨s'', hs''⟩, ⟨t, ht⟩, ⟨t', ht'⟩⟩ := htexts
    obtain ⟨⟨v, hv, hport⟩, ⟨v', hv', hport'⟩, ⟨v'', hv'', hport''⟩⟩ := hports
    obtain ⟨p, hp⟩ := converts_iff.mp hport
    obtain ⟨p', hp'⟩ := converts_iff.mp hport'
    obtain ⟨p'', hp''⟩ := converts_iff.mp hport''
    obtain ⟨dests, hdests⟩ := exists_declares hchecked
    refine ⟨⟨s, s', p, s'', p', t, t', p'', tableOf dests⟩, hs, hs', ⟨v, hv, hp⟩, hs'',
      ⟨v', hv', hp'⟩, ht, ht', ⟨v'', hv'', hp''⟩, items, dests, hitems, ?_, hdests, rfl⟩
    rintro rfl
    exact hne (List.forall₂_nil_right_iff.mp hdests)

/-! ## Numbers -/

/-- The number of a JSON integer. -/
def integer? : Json F → Option ℤ
  | .number_unsigned v => some v
  | .number_integer v => some v
  | _ => none

/-- The value is an integer in the range, and `p` is that integer. -/
def Exact (lo : ℤ) (v : Option (Json F)) (p : UInt16) : Prop :=
  ∃ n, v.bind integer? = some n ∧ InRange lo n ∧ (p.toNat : ℤ) = n

/-- The value is no integer in the range, and its conversion to `int` is in it:
an integer that is another one modulo 2^32, a float, a boolean. -/
def Aliases (src : ConfigSource F) (lo : ℤ) : Json F → Prop
  | .number_unsigned v => ¬ InRange lo v ∧ InRange lo ((v : ℤ).bmod (2 ^ 32))
  | .number_integer v => ¬ InRange lo v ∧ InRange lo (v.bmod (2 ^ 32))
  | .number_float f => InRange lo (src.float_to_int f).toInt
  | .boolean b => InRange lo (if b then 1 else 0)
  | _ => False

/-- An integer in the range is its own conversion. -/
theorem bmod_of_inRange {lo n : ℤ} (hlo : 0 ≤ lo) (h : InRange lo n) : n.bmod (2 ^ 32) = n := by
  obtain ⟨hle, hhi⟩ := h
  rw [Int.bmod_def]
  omega

theorem toNat_ofInt {n : ℤ} (h : InRange 0 n) : ((UInt16.ofInt n).toNat : ℤ) = n := by
  obtain ⟨hle, hhi⟩ := h
  rw [UInt16.ofInt, UInt16.toNat_ofNat']
  omega

/-- What is taken is exact, unless it aliases. -/
theorem exact_iff_of_taken {lo : ℤ} (hlo : 0 ≤ lo) {v : Json F} {p : UInt16}
    (h : Taken src lo v p) : Exact lo (some v) p ↔ ¬ Aliases src lo v := by
  obtain ⟨i, hi, hmin, hmax, rfl⟩ := h
  have hnat : ((UInt16.ofInt i.toInt).toNat : ℤ) = i.toInt := toNat_ofInt ⟨by omega, hmax⟩
  -- the two kinds of integers are converted in the same way
  have hinteger : ∀ n : ℤ, integer? v = some n → i.toInt = n.bmod (2 ^ 32) →
      (Exact lo (some v) (UInt16.ofInt i.toInt) ↔
        ¬ (¬ InRange lo n ∧ InRange lo (n.bmod (2 ^ 32)))) := by
    intro n hn hbmod
    rw [← hbmod]
    constructor
    · rintro ⟨m, hm, hrange, -⟩ ⟨hnot, -⟩
      exact hnot (Option.some.inj (hn.symm.trans hm) ▸ hrange)
    · intro halias
      have hin : InRange lo n := by
        by_contra hnot
        exact halias ⟨hnot, hmin, hmax⟩
      exact ⟨n, hn, hin, hnat.trans (hbmod.trans (bmod_of_inRange hlo hin))⟩
  cases v with
  | number_unsigned n =>
      apply hinteger n rfl
      rw [← Option.some.inj hi]
      exact Int32.toInt_ofNat'
  | number_integer n =>
      apply hinteger n rfl
      rw [← Option.some.inj hi, Int32.toInt_ofInt]
      rfl
  | number_float f =>
      obtain rfl := Option.some.inj hi
      refine iff_of_false ?_ (fun h => h ⟨hmin, hmax⟩)
      rintro ⟨n, hn, -⟩
      exact absurd hn (by simp [integer?])
  | boolean b =>
      obtain rfl := Option.some.inj hi
      refine iff_of_false ?_ (fun h => h ?_)
      · rintro ⟨n, hn, -⟩
        exact absurd hn (by simp [integer?])
      · cases b with
        | true => exact ⟨hmin, hmax⟩
        | false => exact ⟨hmin, hmax⟩
  | null => exact absurd hi (by simp [get_int])
  | string s => exact absurd hi (by simp [get_int])
  | array items => exact absurd hi (by simp [get_int])
  | object members => exact absurd hi (by simp [get_int])

/-- The places of a document that hold a number, with the least number allowed
there and what the document has there. -/
inductive NumberAt (root : Json F) : ℤ → Json F → Prop
  | multicast_port {v : Json F} :
      root.at? [str "udp", str "multicast_port"] = some v → NumberAt root 1 v
  | default_target_port {v : Json F} :
      root.at? [str "tcp", str "default_target_port"] = some v → NumberAt root 1 v
  | ack_port {v : Json F} :
      root.at? [ack_section_name root, str "port"] = some v → NumberAt root 1 v
  | id {items : List (Json F)} {item v : Json F} :
      root.find? (str "lrad_destinations") = some (.array items) → item ∈ items →
      item.find? (str "id") = some v → NumberAt root 0 v
  | port {items : List (Json F)} {item v : Json F} :
      root.find? (str "lrad_destinations") = some (.array items) → item ∈ items →
      item.find? (str "port") = some v → NumberAt root 1 v

/-- Every number is in the document an integer in its range, and kept as that. -/
structure TakenExactly (root : Json F) (cfg : AppConfig) : Prop where
  udp_multicast_port :
    Exact 1 (root.at? [str "udp", str "multicast_port"]) cfg.udp_multicast_port
  tcp_default_target_port :
    Exact 1 (root.at? [str "tcp", str "default_target_port"]) cfg.tcp_default_target_port
  ack_target_port : Exact 1 (root.at? [ack_section_name root, str "port"]) cfg.ack_target_port
  lrad_destinations : ∃ items dests,
    root.find? (str "lrad_destinations") = some (.array items) ∧
    List.Forall₂ (fun item d => Exact 0 (item.find? (str "id")) d.id ∧
      Exact 1 (item.find? (str "port")) d.port) items dests ∧
    tableOf dests = cfg.lrad_destinations

/-- A loaded document whose numbers do not alias. -/
theorem takenExactly_of_loaded {root : Json F} {cfg : AppConfig} (h : Loaded src root cfg)
    (hno : ∀ lo v, NumberAt root lo v → ¬ Aliases src lo v) : TakenExactly root cfg := by
  have hexact : ∀ {lo : ℤ} {o : Option (Json F)} {p : UInt16}, 0 ≤ lo →
      (∀ v, o = some v → NumberAt root lo v) → (∃ v, o = some v ∧ Taken src lo v p) →
      Exact lo o p := by
    rintro lo o p hlo hplace ⟨v, rfl, htaken⟩
    exact (exact_iff_of_taken hlo htaken).mpr (hno lo v (hplace v rfl))
  obtain ⟨items, dests, hitems, -, hdests, htable⟩ := h.lrad_destinations
  refine ⟨hexact (by omega) (fun _ => .multicast_port) h.udp_multicast_port,
    hexact (by omega) (fun _ => .default_target_port) h.tcp_default_target_port,
    hexact (by omega) (fun _ => .ack_port) h.ack_target_port, items, dests, hitems, ?_, htable⟩
  apply List.forall₂_iff_get.mpr
  obtain ⟨hlength, hget⟩ := List.forall₂_iff_get.mp hdests
  refine ⟨hlength, fun i hi hi' => ?_⟩
  have hmem : items.get ⟨i, hi⟩ ∈ items := List.get_mem items _
  exact ⟨hexact le_rfl (fun _ => .id hitems hmem) (hget i hi hi').id,
    hexact (by omega) (fun _ => .port hitems hmem) (hget i hi hi').port⟩

/-- In a document taken exactly, every number is an integer in its range. -/
theorem integer_of_takenExactly {root : Json F} {cfg : AppConfig} (h : TakenExactly root cfg)
    {lo : ℤ} {v : Json F} (hplace : NumberAt root lo v) :
    ∃ n, integer? v = some n ∧ InRange lo n := by
  have hinteger : ∀ {lo : ℤ} {o : Option (Json F)} {p : UInt16} {v : Json F}, Exact lo o p →
      o = some v → ∃ n, integer? v = some n ∧ InRange lo n := by
    rintro lo o p v ⟨n, hn, hrange, -⟩ rfl
    exact ⟨n, hn, hrange⟩
  obtain ⟨items, dests, hitems, hdests, -⟩ := h.lrad_destinations
  -- the elements of the array are those of `items`
  have hmember : ∀ {items' : List (Json F)} {item : Json F},
      root.find? (str "lrad_destinations") = some (.array items') → item ∈ items' →
      ∃ d ∈ dests, Exact 0 (item.find? (str "id")) d.id ∧
        Exact 1 (item.find? (str "port")) d.port := by
    intro items' item hitems' hitem
    have heq := Option.some.inj (hitems.symm.trans hitems')
    rw [Json.array.injEq] at heq
    subst heq
    exact exists_of_forall₂ hdests hitem
  cases hplace with
  | multicast_port hv => exact hinteger h.udp_multicast_port hv
  | default_target_port hv => exact hinteger h.tcp_default_target_port hv
  | ack_port hv => exact hinteger h.ack_target_port hv
  | id hitems' hitem hv =>
      obtain ⟨d, -, hid, -⟩ := hmember hitems' hitem
      exact hinteger hid hv
  | port hitems' hitem hv =>
      obtain ⟨d, -, -, hport⟩ := hmember hitems' hitem
      exact hinteger hport hv

/-- An integer in the range aliases nothing. -/
theorem not_aliases_of_integer {lo n : ℤ} {v : Json F} (hv : integer? v = some n)
    (h : InRange lo n) : ¬ Aliases src lo v := by
  cases v with
  | number_unsigned m => exact fun halias => halias.1 (Option.some.inj hv ▸ h)
  | number_integer m => exact fun halias => halias.1 (Option.some.inj hv ▸ h)
  | null => exact id
  | boolean b => exact absurd hv (by simp [integer?])
  | number_float f => exact absurd hv (by simp [integer?])
  | string s => exact id
  | array items => exact id
  | object members => exact id

/-- **Numbers** are taken exactly, from every file but one whose document passes the
tests and has at one of the places a value that aliases. -/
theorem numbers_exact_iff (src : ConfigSource F) (config_path : Bytes) :
    (∀ root cfg, (src.file config_path).bind src.extract = some root →
      loadAppConfig src config_path = .ok cfg → TakenExactly root cfg) ↔
    ∀ root, (src.file config_path).bind src.extract = some root → Checked src root →
      ∀ lo v, NumberAt root lo v → ¬ Aliases src lo v := by
  constructor
  · intro hexact root hroot hchecked lo v hplace
    obtain ⟨cfg, hcfg⟩ := read_root_returns_iff.mpr hchecked
    have hload := loadAppConfig_ok_iff.mpr ⟨root, hroot, read_root_ok_iff.mp hcfg⟩
    obtain ⟨n, hn, hrange⟩ := integer_of_takenExactly (hexact root cfg hroot hload) hplace
    exact not_aliases_of_integer hn hrange
  · intro hno root cfg hroot hload
    obtain ⟨root', hroot', hloaded⟩ := loadAppConfig_ok_iff.mp hload
    obtain rfl := Option.some.inj (hroot.symm.trans hroot')
    have hchecked := read_root_returns_iff.mp ⟨cfg, read_root_ok_iff.mpr hloaded⟩
    exact takenExactly_of_loaded hloaded (hno root hroot hchecked)

/-! ## The routing table -/

/-- The last of a row of destinations with an id. -/
def lastDeclared (id : UInt16) (dests : List LradDestination) : Option LradDestination :=
  lastWrite (fun d => if d.id = id then some d else none) dests

/-- The table has for an id what was inserted for it last. -/
theorem getElem?_tableOf (id : UInt16) (dests : List LradDestination) :
    (tableOf dests)[id]? = lastDeclared id dests := by
  have hinsert : ∀ (t : RoutingTable) (d : LradDestination),
      (t.insert d.id d)[id]? = (if d.id = id then some d else none).or t[id]? := by
    intro t d
    rw [Std.ExtTreeMap.getElem?_insert]
    simp only [Std.LawfulEqCmp.compare_eq_iff_eq]
    split_ifs <;> rfl
  have hread := @Registers.read_foldl RoutingTable LradDestination LradDestination
    (fun d => if d.id = id then some d else none) (fun t d => t.insert d.id d) (fun t => t[id]?)
    hinsert dests ∅
  rw [Std.ExtTreeMap.getElem?_empty, Option.or_none] at hread
  exact hread

theorem lastDeclared_append (id : UInt16) (dests : List LradDestination) (d : LradDestination) :
    lastDeclared id (dests ++ [d]) = if d.id = id then some d else lastDeclared id dests := by
  rw [lastDeclared, lastWrite_append, Registers.lastWrite_cons]
  split_ifs <;> rfl

/-- What is found was declared with that id. -/
theorem lastDeclared_eq_some {id : UInt16} {dests : List LradDestination} {d : LradDestination}
    (h : lastDeclared id dests = some d) : d ∈ dests ∧ d.id = id := by
  induction dests using List.reverseRecOn with
  | nil => exact absurd h (by simp [lastDeclared, lastWrite])
  | append_singleton dests d' ih =>
      rw [lastDeclared_append] at h
      split_ifs at h with hid
      · obtain rfl := Option.some.inj h
        exact ⟨List.mem_append_right _ (List.mem_singleton_self _), hid⟩
      · exact ⟨List.mem_append_left _ (ih h).1, (ih h).2⟩

/-- An id that is declared is found. -/
theorem isSome_lastDeclared {id : UInt16} {dests : List LradDestination} :
    (lastDeclared id dests).isSome = true ↔ id ∈ dests.map LradDestination.id := by
  rw [Option.isSome_iff_ne_none, lastDeclared, Ne, Registers.lastWrite_eq_none_iff, List.mem_map]
  push Not
  constructor
  · rintro ⟨d, hd, hid⟩
    exact ⟨d, hd, (ite_ne_right_iff.mp hid).1⟩
  · rintro ⟨d, hd, rfl⟩
    exact ⟨d, hd, by simp⟩

/-- The table has one entry for each id that occurs. -/
theorem size_tableOf (dests : List LradDestination) :
    (tableOf dests).size = (dests.map LradDestination.id).toFinset.card := by
  induction dests using List.reverseRecOn with
  | nil => rfl
  | append_singleton dests d ih =>
      have hinsert : tableOf (dests ++ [d]) = (tableOf dests).insert d.id d := by
        rw [tableOf, List.foldl_append]
        rfl
      have hmem : d.id ∈ tableOf dests ↔ d.id ∈ (dests.map LradDestination.id).toFinset := by
        rw [← Std.ExtTreeMap.isSome_getElem?_iff_mem, getElem?_tableOf, isSome_lastDeclared,
          List.mem_toFinset]
      have hids : ((dests ++ [d]).map LradDestination.id).toFinset =
          insert d.id (dests.map LradDestination.id).toFinset := by
        rw [List.map_append, List.toFinset_append, Finset.union_comm]
        rfl
      rw [hinsert, Std.ExtTreeMap.size_insert, ih, hids]
      split_ifs with hd
      · rw [Finset.insert_eq_of_mem (hmem.mp hd)]
      · rw [Finset.card_insert_of_notMem (fun h => hd (hmem.mpr h))]

/-- Where no id occurs twice, every destination is found under its id. -/
theorem lastDeclared_of_nodup {dests : List LradDestination}
    (h : (dests.map LradDestination.id).Nodup) {d : LradDestination} (hd : d ∈ dests) :
    lastDeclared d.id dests = some d := by
  obtain ⟨d', hd'⟩ := Option.isSome_iff_exists.mp
    (isSome_lastDeclared.mpr (List.mem_map_of_mem hd))
  obtain ⟨hmem, hid⟩ := lastDeclared_eq_some hd'
  rw [hd', List.inj_on_of_nodup_map h hmem hd hid]

/-- Every element has an entry of its own. -/
def AllKept (src : ConfigSource F) (items : List (Json F)) (table : RoutingTable) : Prop :=
  table.size = items.length ∧ ∀ item ∈ items, ∃ d, Declares src item d ∧ table[d.id]? = some d

/-- **Destinations.** The routing table has one entry for each id that occurs, the
last that declares it, and an order for an LRAD of the table is sent there. Where
no id occurs twice, every element has its entry. -/
theorem last_declaration_counts {config_path : Bytes} {cfg : AppConfig}
    (h : loadAppConfig src config_path = .ok cfg) : ∃ root items dests,
    (src.file config_path).bind src.extract = some root ∧
    root.find? (str "lrad_destinations") = some (.array items) ∧
    List.Forall₂ (Declares src) items dests ∧
    cfg.lrad_destinations.size = (dests.map LradDestination.id).toFinset.card ∧
    (∀ d ∈ dests, ∃ d', lastDeclared d.id dests = some d' ∧ d'.id = d.id ∧
      cfg.lrad_destinations[d.id]? = some d' ∧
      ∀ {G S : Type} (eng : Engine.ProxyEngine G S) (packet : RawPacket) (sender : S),
        eng.lrad_config_ = cfg.lrad_destinations → packet.destinationLradId = d.id →
        ∃ result sender', Engine.deliver eng packet sender =
          (result, sender', [.send packet d'.ip_address d'.port result])) ∧
    ((dests.map LradDestination.id).Nodup → AllKept src items cfg.lrad_destinations) := by
  obtain ⟨root, hroot, hloaded⟩ := loadAppConfig_ok_iff.mp h
  obtain ⟨items, dests, hitems, -, hdests, htable⟩ := hloaded.lrad_destinations
  have hlookup : ∀ id, cfg.lrad_destinations[id]? = lastDeclared id dests := by
    intro id
    rw [← htable, getElem?_tableOf]
  have hsize : cfg.lrad_destinations.size = (dests.map LradDestination.id).toFinset.card := by
    rw [← htable, size_tableOf]
  refine ⟨root, items, dests, hroot, hitems, hdests, hsize, ?_, ?_⟩
  · intro d hd
    obtain ⟨d', hd'⟩ := Option.isSome_iff_exists.mp
      (isSome_lastDeclared.mpr (List.mem_map_of_mem hd))
    refine ⟨d', hd', (lastDeclared_eq_some hd').2, (hlookup d.id).trans hd', ?_⟩
    intro G S eng packet sender heng hid
    rw [Engine.deliver, heng, hid, hlookup, hd']
    exact ⟨_, _, rfl⟩
  · intro hnodup
    constructor
    · rw [hsize, List.toFinset_card_of_nodup hnodup, List.length_map, hdests.length_eq]
    · intro item hitem
      obtain ⟨d, hd, hdeclares⟩ := exists_of_forall₂ hdests hitem
      exact ⟨d, hdeclares, (hlookup d.id).trans (lastDeclared_of_nodup hnodup hd)⟩

end

/-! ## Documents that are loaded -/

section

/-- A configuration file with these numbers at its four places and these
destinations. -/
def document (multicast_port : Json Float32) (lrad_destinations : List (Json Float32)) :
    Json Float32 :=
  Json.ofMembers
    [(str "udp", Json.ofMembers
        [(str "listen_ip", .string (str "127.0.0.1")),
          (str "multicast_group", .string (str "226.1.1.30")),
          (str "multicast_port", multicast_port)]),
      (str "tcp", Json.ofMembers
        [(str "default_target_ip", .string (str "127.0.0.1")),
          (str "default_target_port", .number_unsigned 9000),
          (str "unicast_target_ip", .string (str "127.0.0.1"))]),
      (str "ack", Json.ofMembers
        [(str "ip", .string (str "226.1.1.43")), (str "port", .number_unsigned 55010)]),
      (str "lrad_destinations", .array lrad_destinations)]

/-- An element of `lrad_destinations`. -/
def element (id : ℕ) (ip : Bytes) : Json Float32 :=
  Json.ofMembers [(str "id", .number_unsigned id), (str "ip", .string ip),
    (str "port", .number_unsigned 9000)]

/-- A file system with one document. -/
def oneFile (root : Json Float32) : ConfigSource Float32 where
  file _ := some []
  extract _ := some root
  float_to_int _ := 0

/-- A part of what was loaded shows that it was. -/
theorem exists_loaded {src : ConfigSource Float32} {config_path : Bytes} {α : Type}
    {view : AppConfig → α} {a : α}
    (h : (loadAppConfig src config_path).toOption.map view = some a) :
    ∃ cfg, loadAppConfig src config_path = .ok cfg ∧ view cfg = a := by
  cases hload : loadAppConfig src config_path with
  | ok cfg =>
      rw [hload] at h
      exact ⟨cfg, rfl, Option.some.inj h⟩
  | error e =>
      rw [hload] at h
      exact absurd h (by simp [Except.toOption])

/-- A port of `2 ^ 32 + 9000` is taken for 9000. -/
theorem wide_port_taken :
    ∃ cfg, loadAppConfig (oneFile (document (.number_unsigned 4294976296) [element 1 []])) [] =
        .ok cfg ∧ cfg.udp_multicast_port = 9000 ∧
      ¬ TakenExactly (document (.number_unsigned 4294976296) [element 1 []]) cfg := by
  obtain ⟨cfg, hcfg, hport⟩ := @exists_loaded
    (oneFile (document (.number_unsigned 4294976296) [element 1 []])) [] UInt16
    AppConfig.udp_multicast_port 9000 (by decide +kernel)
  refine ⟨cfg, hcfg, hport, fun hexact => ?_⟩
  obtain ⟨n, hn, -, hhi⟩ := integer_of_takenExactly hexact (.multicast_port rfl)
  obtain rfl := Option.some.inj hn
  exact absurd hhi (by decide)

/-- Of two elements for LRAD 1 the first is lost. -/
theorem duplicate_lost :
    ∃ cfg, loadAppConfig (oneFile (document (.number_unsigned 55000)
        [element 1 (str "10.0.0.1"), element 1 (str "10.0.0.2")])) [] = .ok cfg ∧
      cfg.lrad_destinations.size = 1 ∧
      (cfg.lrad_destinations[(1 : UInt16)]?).map LradDestination.ip_address =
        some (str "10.0.0.2") ∧
      ¬ AllKept (oneFile (document (.number_unsigned 55000)
          [element 1 (str "10.0.0.1"), element 1 (str "10.0.0.2")]))
        [element 1 (str "10.0.0.1"), element 1 (str "10.0.0.2")] cfg.lrad_destinations := by
  obtain ⟨cfg, hcfg, hview⟩ := @exists_loaded
    (oneFile (document (.number_unsigned 55000)
      [element 1 (str "10.0.0.1"), element 1 (str "10.0.0.2")])) [] (ℕ × Option Bytes)
    (fun cfg => (cfg.lrad_destinations.size,
      (cfg.lrad_destinations[(1 : UInt16)]?).map LradDestination.ip_address))
    (1, some (str "10.0.0.2")) (by decide +kernel)
  obtain ⟨hsize, hip⟩ := Prod.mk.inj hview
  refine ⟨cfg, hcfg, hsize, hip, fun hkept => ?_⟩
  exact absurd (hsize.symm.trans hkept.1) (by decide)

/-- Two destinations, one order. -/
theorem last_declaration_counts_two : ∃ cfg,
    loadAppConfig (oneFile (document (.number_unsigned 55000)
      [element 1 (str "10.0.0.1"), element 2 (str "10.0.0.2")])) [] = .ok cfg ∧
    ∃ (root : Json Float32) (items : List (Json Float32)) (dests : List LradDestination),
      root.find? (str "lrad_destinations") = some (.array items) ∧
      cfg.lrad_destinations.size = (dests.map LradDestination.id).toFinset.card := by
  obtain ⟨cfg, hcfg, -⟩ := @exists_loaded
    (oneFile (document (.number_unsigned 55000)
      [element 1 (str "10.0.0.1"), element 2 (str "10.0.0.2")])) [] ℕ
    (fun cfg => cfg.lrad_destinations.size) 2 (by decide +kernel)
  obtain ⟨root, items, dests, -, hitems, -, hsize, -⟩ := last_declaration_counts hcfg
  exact ⟨cfg, hcfg, root, items, dests, hitems, hsize⟩

end

end CmsProxy.Loading
