/-
The configurations there are.

`Loading.lean` says which documents are loaded. This file says what can come of a file:
the configurations `main` can be started with are those with ports other than 0, at
least one destination, each under its own id, and texts that are valid UTF-8
(`configurations_iff`). Nothing else is guaranteed, of the addresses in particular that
they are addresses. In the other direction every such configuration can be had: it can
be written as a document (`written`), and the loader reads it back from the text of
that document. What is assumed of the parser is `ExtractLaws`.
-/
import CmsProxy.Loading
import CmsProxy.Reference

set_option autoImplicit false

namespace CmsProxy.Configurations

open BigEndian (Bytes)
open Interfaces JsonValue JsonText Config Loading

/-! ## What is guaranteed -/

/-- A configuration as the loader leaves it. -/
structure Valid (config : AppConfig) : Prop where
  udp_multicast_port : config.udp_multicast_port ≠ 0
  tcp_default_target_port : config.tcp_default_target_port ≠ 0
  ack_target_port : config.ack_target_port ≠ 0
  texts : ∀ s ∈ [config.udp_listen_ip, config.udp_multicast_group, config.tcp_default_target_ip,
    config.tcp_unicast_target_ip, config.ack_target_ip], validUtf8 s = true
  nonempty : config.lrad_destinations ≠ ∅
  destinations : ∀ (id : UInt16) (d : LradDestination), config.lrad_destinations[id]? = some d →
    d.id = id ∧ d.port ≠ 0 ∧ validUtf8 d.ip_address = true

section

variable {F : Type} {src : ConfigSource F}

/-- A port that is taken is not 0. -/
theorem ne_zero_of_taken {v : Json F} {p : UInt16} (h : Taken src 1 v p) : p ≠ 0 := by
  obtain ⟨i, -, hlo, hhi, rfl⟩ := h
  have hnat := toNat_ofInt ⟨by omega, hhi⟩
  intro hzero
  rw [hzero, UInt16.toNat_zero] at hnat
  omega

theorem tableOf_eq_empty {dests : List LradDestination} : tableOf dests = ∅ ↔ dests = [] := by
  rw [← tableOf_isEmpty, Std.ExtTreeMap.isEmpty_iff]

/-- What stands in a document with valid strings is valid. -/
theorem validUtf8_of_at? {root : Json F} (h : root.utf8Ok = true) {path : List Bytes} {s : Bytes}
    (hs : root.at? path = some (.string s)) : validUtf8 s = true :=
  utf8Ok_of_at? h hs

theorem valid_of_loaded {root : Json F} {config : AppConfig} (hutf8 : root.utf8Ok = true)
    (h : Loaded src root config) : Valid config := by
  obtain ⟨v, -, hport⟩ := h.udp_multicast_port
  obtain ⟨v', -, hport'⟩ := h.tcp_default_target_port
  obtain ⟨v'', -, hport''⟩ := h.ack_target_port
  obtain ⟨items, dests, hitems, hne, hdests, htable⟩ := h.lrad_destinations
  refine ⟨ne_zero_of_taken hport, ne_zero_of_taken hport', ne_zero_of_taken hport'', ?_, ?_, ?_⟩
  · simp only [List.forall_mem_cons, List.not_mem_nil, false_implies, implies_true, and_true]
    exact ⟨validUtf8_of_at? hutf8 h.udp_listen_ip, validUtf8_of_at? hutf8 h.udp_multicast_group,
      validUtf8_of_at? hutf8 h.tcp_default_target_ip,
      validUtf8_of_at? hutf8 h.tcp_unicast_target_ip, validUtf8_of_at? hutf8 h.ack_target_ip⟩
  · rw [← htable, Ne, tableOf_eq_empty]
    exact hne
  · intro id d hd
    rw [← htable, getElem?_tableOf] at hd
    obtain ⟨hmem, hid⟩ := lastDeclared_eq_some hd
    obtain ⟨item, hitem, hdeclares⟩ := exists_of_forall₂ hdests.flip hmem
    obtain ⟨w, -, htaken⟩ := hdeclares.port
    have hall : utf8OkItems items = true := utf8Ok_of_find? hutf8 hitems
    have hip : (Json.string d.ip_address : Json F).utf8Ok = true :=
      utf8Ok_of_find? (utf8OkItems_iff.mp hall item hitem) hdeclares.ip
    exact ⟨hid, ne_zero_of_taken htaken, hip⟩

/-! ## What can be had -/

/-- The destinations of a table. -/
def destinationsOf (table : RoutingTable) : List LradDestination := table.toList.map Prod.snd

theorem mem_destinationsOf {table : RoutingTable} {d : LradDestination} :
    d ∈ destinationsOf table ↔ ∃ id : UInt16, table[id]? = some d := by
  rw [destinationsOf, List.mem_map]
  constructor
  · rintro ⟨⟨id, d'⟩, hmem, rfl⟩
    exact ⟨id, Std.ExtTreeMap.mem_toList_iff_getElem?_eq_some.mp hmem⟩
  · rintro ⟨id, hd⟩
    exact ⟨(id, d), Std.ExtTreeMap.mem_toList_iff_getElem?_eq_some.mpr hd, rfl⟩

/-- Where every destination is under its own id, the ids are the keys. -/
theorem nodup_destinationsOf {table : RoutingTable}
    (h : ∀ (id : UInt16) (d : LradDestination), table[id]? = some d → d.id = id) :
    ((destinationsOf table).map LradDestination.id).Nodup := by
  have hkeys : (destinationsOf table).map LradDestination.id = table.toList.map Prod.fst := by
    rw [destinationsOf, List.map_map, List.map_inj_left]
    rintro ⟨id, d⟩ hmem
    exact h id d (Std.ExtTreeMap.mem_toList_iff_getElem?_eq_some.mp hmem)
  rw [hkeys, Std.ExtTreeMap.map_fst_toList_eq_keys]
  exact Std.ExtTreeMap.nodup_keys

/-- The table of its destinations is the table. -/
theorem tableOf_destinationsOf {table : RoutingTable}
    (h : ∀ (id : UInt16) (d : LradDestination), table[id]? = some d → d.id = id) :
    tableOf (destinationsOf table) = table := by
  apply Std.ExtTreeMap.ext_getElem?
  intro id
  rw [getElem?_tableOf]
  cases hd : table[id]? with
  | some d =>
      have hdeclared := lastDeclared_of_nodup (nodup_destinationsOf h)
        (mem_destinationsOf.mpr ⟨id, hd⟩)
      rw [h id d hd] at hdeclared
      exact hdeclared
  | none =>
      by_contra hsome
      obtain ⟨d, hd'⟩ := Option.ne_none_iff_exists'.mp hsome
      obtain ⟨hmem, rfl⟩ := lastDeclared_eq_some hd'
      obtain ⟨id', hid'⟩ := mem_destinationsOf.mp hmem
      rw [← h id' d hid', hd] at hid'
      exact nomatch hid'

/-! ## Writing a configuration -/

/-- A number. -/
def writtenPort (p : UInt16) : Json F := .number_unsigned p.toNat

/-- An element of `lrad_destinations`. -/
def writtenDestination (d : LradDestination) : Json F :=
  Json.ofMembers [(str "id", writtenPort d.id), (str "ip", .string d.ip_address),
    (str "port", writtenPort d.port)]

/-- A configuration as a document. -/
def written (config : AppConfig) : Json F :=
  Json.ofMembers
    [(str "udp", Json.ofMembers
        [(str "listen_ip", .string config.udp_listen_ip),
          (str "multicast_group", .string config.udp_multicast_group),
          (str "multicast_port", writtenPort config.udp_multicast_port)]),
      (str "tcp", Json.ofMembers
        [(str "default_target_ip", .string config.tcp_default_target_ip),
          (str "default_target_port", writtenPort config.tcp_default_target_port),
          (str "unicast_target_ip", .string config.tcp_unicast_target_ip)]),
      (str "ack", Json.ofMembers
        [(str "ip", .string config.ack_target_ip),
          (str "port", writtenPort config.ack_target_port)]),
      (str "lrad_destinations",
        .array ((destinationsOf config.lrad_destinations).map writtenDestination))]

theorem taken_writtenPort {lo : ℤ} {p : UInt16} (h : lo ≤ p.toNat) :
    Taken src lo (writtenPort p) p := by
  have hlt := p.toNat_lt
  have hint : (Int32.ofNat p.toNat).toInt = p.toNat := Int32.toInt_ofNat_of_lt (by omega)
  refine ⟨Int32.ofNat p.toNat, rfl, ?_⟩
  rw [hint]
  refine ⟨h, by omega, ?_⟩
  rw [← UInt16.toNat_inj]
  have hnat := @toNat_ofInt p.toNat ⟨by omega, by omega⟩
  omega

theorem one_le_of_ne_zero {p : UInt16} (h : p ≠ 0) : (1 : ℤ) ≤ p.toNat := by
  rw [Ne, ← UInt16.toNat_inj, UInt16.toNat_zero] at h
  omega

theorem declares_written {d : LradDestination} (h : d.port ≠ 0) :
    Declares src (writtenDestination d) d where
  id := ⟨writtenPort d.id, by simp [writtenDestination, findMember],
    taken_writtenPort (by omega)⟩
  ip := by simp [writtenDestination, findMember]
  port := ⟨writtenPort d.port, by simp [writtenDestination, findMember],
    taken_writtenPort (one_le_of_ne_zero h)⟩

/-- What was written is loaded. -/
theorem loaded_written {config : AppConfig} (h : Valid config) :
    Loaded src (written config) config := by
  have hfind : (written config : Json F).find? (str "ack") = some (Json.ofMembers
      [(str "ip", .string config.ack_target_ip),
        (str "port", writtenPort config.ack_target_port)]) := by
    simp [written, findMember]
  have hack : ack_section_name (written config : Json F) = str "ack" := by
    rw [ack_section_name, has_section, hfind]
    rfl
  have hports := fun {p : UInt16} (hp : p ≠ 0) =>
    @taken_writtenPort F src 1 p (one_le_of_ne_zero hp)
  constructor
  · simp [Json.at?, written, findMember]
  · simp [Json.at?, written, findMember]
  · exact ⟨_, by simp [Json.at?, written, findMember], hports h.udp_multicast_port⟩
  · simp [Json.at?, written, findMember]
  · exact ⟨_, by simp [Json.at?, written, findMember], hports h.tcp_default_target_port⟩
  · simp [Json.at?, written, findMember]
  · rw [hack]
    simp [Json.at?, hfind, findMember]
  · rw [hack]
    exact ⟨_, by simp [Json.at?, hfind, findMember], hports h.ack_target_port⟩
  · refine ⟨(destinationsOf config.lrad_destinations).map writtenDestination,
      destinationsOf config.lrad_destinations, by simp [written, findMember], ?_, ?_,
      tableOf_destinationsOf fun id d hd => (h.destinations id d hd).1⟩
    · intro hnil
      apply h.nonempty
      rw [← tableOf_destinationsOf fun id d hd => (h.destinations id d hd).1, hnil]
      rfl
    · rw [List.forall₂_map_left_iff, List.forall₂_same]
      intro d hd
      obtain ⟨id, hid⟩ := mem_destinationsOf.mp hd
      exact declares_written (h.destinations id d hid).2.1

/-- The document is one that a parser gives back. -/
theorem sorted_written (config : AppConfig) : (written config : Json F).Sorted := by
  have hitems : SortedItems ((destinationsOf config.lrad_destinations).map
      (writtenDestination : LradDestination → Json F)) := by
    rw [sortedItems_iff, List.forall_mem_map]
    intro d _
    simp [writtenDestination, writtenPort, Json.Sorted, SortedMembers]
  simp [written, writtenPort, Json.Sorted, SortedMembers, hitems]

theorem plain_writtenPort (p : UInt16) : (writtenPort p : Json F).Plain := by
  have hlt := p.toNat_lt
  show p.toNat < 2 ^ 64
  omega

theorem plain_written (config : AppConfig) : (written config : Json F).Plain := by
  have hitems : PlainItems ((destinationsOf config.lrad_destinations).map
      (writtenDestination : LradDestination → Json F)) := by
    rw [plainItems_iff, List.forall_mem_map]
    exact fun d _ => plain_ofMembers ⟨plain_writtenPort d.id, trivial, plain_writtenPort d.port,
      trivial⟩
  have hudp := @plain_ofMembers F [(str "listen_ip", .string config.udp_listen_ip),
    (str "multicast_group", .string config.udp_multicast_group),
    (str "multicast_port", writtenPort config.udp_multicast_port)]
    ⟨trivial, trivial, plain_writtenPort _, trivial⟩
  have htcp := @plain_ofMembers F [(str "default_target_ip", .string config.tcp_default_target_ip),
    (str "default_target_port", writtenPort config.tcp_default_target_port),
    (str "unicast_target_ip", .string config.tcp_unicast_target_ip)]
    ⟨trivial, plain_writtenPort _, trivial, trivial⟩
  have hack := @plain_ofMembers F [(str "ip", .string config.ack_target_ip),
    (str "port", writtenPort config.ack_target_port)] ⟨trivial, plain_writtenPort _, trivial⟩
  exact plain_ofMembers ⟨hudp, htcp, hack, hitems, trivial⟩

theorem utf8Ok_written {config : AppConfig} (h : Valid config) :
    (written config : Json F).utf8Ok = true := by
  have hitems : utf8OkItems ((destinationsOf config.lrad_destinations).map
      (writtenDestination : LradDestination → Json F)) = true := by
    rw [utf8OkItems_iff, List.forall_mem_map]
    intro d hd
    obtain ⟨id, hid⟩ := mem_destinationsOf.mp hd
    simp [writtenDestination, writtenPort, Json.utf8Ok, utf8OkMembers,
      (h.destinations id d hid).2.2]
  have htexts := h.texts
  simp only [List.forall_mem_cons, List.not_mem_nil, false_implies, implies_true,
    and_true] at htexts
  simp [written, writtenPort, Json.utf8Ok, utf8OkMembers, hitems, htexts]

/-- What is relied on in `input >> root`: the strings of a document are valid UTF-8, and a
document is read off its text, at least if its numbers are natural numbers. -/
structure ExtractLaws (src : ConfigSource F) (ft : FloatText F) : Prop where
  utf8Ok : ∀ text root, src.extract text = some root → root.utf8Ok = true
  extract_text : ∀ root : Json F, root.Sorted → root.Plain → root.utf8Ok = true →
    src.extract (text ft root) = some root

/-- **Configurations.** What can be loaded from a file are the configurations with ports
other than 0, with texts that are valid UTF-8, and with a table that is not empty and has
every destination under its own id; and each of them is loaded from a file that holds
the text of the document it is written as. -/
theorem configurations_iff {ft : FloatText F} (hextract : ExtractLaws src ft)
    (config : AppConfig) :
    ((∃ file config_path, loadAppConfig { src with file := file } config_path = .ok config) ↔
      Valid config) ∧
    (Valid config → ∀ config_path, src.file config_path = some (text ft (written config)) →
      loadAppConfig src config_path = .ok config) := by
  have hwritten : Valid config → ∀ (file : Bytes → Option Bytes) (config_path : Bytes),
      file config_path = some (text ft (written config)) →
      loadAppConfig { src with file := file } config_path = .ok config := by
    intro h file config_path hfile
    refine loadAppConfig_ok_iff.mpr ⟨written config, ?_, loaded_written h⟩
    show (file config_path).bind src.extract = _
    rw [hfile]
    exact hextract.extract_text _ (sorted_written config) (plain_written config)
      (utf8Ok_written h)
  refine ⟨⟨?_, fun h => ⟨_, [], hwritten h (fun _ => some (text ft (written config))) [] rfl⟩⟩,
    fun h => hwritten h src.file⟩
  rintro ⟨file, config_path, hload⟩
  obtain ⟨root, hroot, hloaded⟩ := loadAppConfig_ok_iff.mp hload
  obtain ⟨text, -, hextracted⟩ := Option.bind_eq_some_iff.mp hroot
  exact valid_of_loaded (hextract.utf8Ok text root hextracted) hloaded

end

/-! ## One file -/

/-- A parser that takes the texts of `JsonText`, with strings that are valid UTF-8. -/
def reader (file : Bytes → Option Bytes) : ConfigSource Float32 where
  file := file
  extract s := (parse Reference.zeroText s).filter Json.utf8Ok
  float_to_int _ := 0

theorem reader_laws (file : Bytes → Option Bytes) :
    ExtractLaws (reader file) Reference.zeroText where
  utf8Ok text root h := (Option.filter_eq_some_iff.mp h).2
  extract_text root _ hplain hutf8 := by
    show (parse Reference.zeroText (text Reference.zeroText root)).filter Json.utf8Ok = some root
    rw [parse_text, reread_of_plain _ _ hplain]
    exact Option.filter_eq_some_iff.mpr ⟨rfl, hutf8⟩

/-- Two destinations. -/
def twoDestinations : AppConfig where
  udp_listen_ip := str "127.0.0.1"
  udp_multicast_group := str "226.1.1.30"
  udp_multicast_port := 55000
  tcp_default_target_ip := str "127.0.0.1"
  tcp_default_target_port := 9000
  tcp_unicast_target_ip := str "127.0.0.1"
  ack_target_ip := str "226.1.1.43"
  ack_target_port := 55010
  lrad_destinations := Reference.table [1, 2]

theorem valid_twoDestinations : Valid twoDestinations := by
  have htable : twoDestinations.lrad_destinations =
      tableOf [⟨1, str "10.0.0.1", 9000⟩, ⟨2, str "10.0.0.1", 9000⟩] := rfl
  refine ⟨by decide, by decide, by decide, ?_, ?_, ?_⟩
  · simp [twoDestinations]
  · rw [htable, Ne, tableOf_eq_empty]
    exact List.cons_ne_nil _ _
  · intro id d hd
    rw [htable, getElem?_tableOf] at hd
    obtain ⟨hmem, hid⟩ := lastDeclared_eq_some hd
    have hall : ∀ d ∈ ([⟨1, str "10.0.0.1", 9000⟩, ⟨2, str "10.0.0.1", 9000⟩] :
        List LradDestination), d.port ≠ 0 ∧ validUtf8 d.ip_address = true := by
      simp only [List.forall_mem_cons, validUtf8_str, List.not_mem_nil, false_implies,
        implies_true, and_true]
      decide
    exact ⟨hid, hall d hmem⟩

theorem configurations_iff_two : ∃ file : Bytes → Option Bytes,
    loadAppConfig (reader file) (str "config/network_config.json") = .ok twoDestinations :=
  ⟨fun _ => some (text Reference.zeroText (written twoDestinations)),
    (configurations_iff (reader_laws _) twoDestinations).2 valid_twoDestinations _ rfl⟩

end CmsProxy.Configurations
