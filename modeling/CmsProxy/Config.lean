/-
`AppConfig.cpp`: the configuration file.

`loadAppConfig` is translated check by check; what it throws is an error with
the text of the source, or one of the two exceptions of the JSON library. What
the file system, the JSON parser and the conversion of a stored float to `int`
do is not in the repository and an argument here (`ConfigSource`).

`get<int>()` is a `static_cast` of whatever number is stored: an integer is
reduced modulo 2^32, a boolean is 0 or 1. The range of a port and of an LRAD id
is tested after it.
-/
import CmsProxy.Decimal
import CmsProxy.Interfaces

set_option autoImplicit false

namespace CmsProxy.Config

open BigEndian (Bytes)
open Interfaces JsonValue Decimal

/-- What ends `loadAppConfig` other than by returning. -/
inductive ConfigError where
  | runtime_error (what : Bytes)
  /-- `input >> root` on a text that is not JSON. -/
  | parse_error
  /-- `get<T>()` on a value of another kind. -/
  | type_error
  deriving DecidableEq

/-- What `loadAppConfig` calls but the repository does not contain. -/
structure ConfigSource (F : Type) where
  /-- The text of a file; `none` when it cannot be opened. -/
  file : Bytes → Option Bytes
  /-- `input >> root`; `none` when it throws. -/
  extract : Bytes → Option (Json F)
  /-- `static_cast<int>` of a stored float. -/
  float_to_int : F → Int32

/-- `AppConfig`. -/
structure AppConfig where
  udp_listen_ip : Bytes
  udp_multicast_group : Bytes
  udp_multicast_port : UInt16
  tcp_default_target_ip : Bytes
  tcp_default_target_port : UInt16
  tcp_unicast_target_ip : Bytes
  ack_target_ip : Bytes
  ack_target_port : UInt16
  lrad_destinations : RoutingTable

/-- `std::to_string(int)`. -/
def to_string (v : Int32) : Bytes :=
  if v < 0 then str "-" ++ decimal v.toInt.natAbs else decimal v.toInt.natAbs

section

variable {F : Type}

/-- `is_object()`. -/
def is_object : Json F → Bool
  | .object _ => true
  | _ => false

/-- `get<int>()`; `none` where it throws. -/
def get_int (src : ConfigSource F) : Json F → Option Int32
  | .number_unsigned v => some (Int32.ofNat v)
  | .number_integer v => some (Int32.ofInt v)
  | .number_float f => some (src.float_to_int f)
  | .boolean b => some (if b then 1 else 0)
  | _ => none

/-- `get<std::string>()`; `none` where it throws. -/
def get_string : Json F → Option Bytes
  | .string s => some s
  | _ => none

/-- `read_required`; `get` is `get<T>()`. -/
def read_required {T : Type} (get : Json F → Option T) (j : Json F) (key section_name : Bytes) :
    Except ConfigError T :=
  match j.find? key with
  | none => .error (.runtime_error
      (str "Campo mancante in sezione '" ++ section_name ++ str "': " ++ key))
  | some v =>
      match get v with
      | some value => .ok value
      | none => .error .type_error

/-- `read_port`. -/
def read_port (src : ConfigSource F) (j : Json F) (key section_name : Bytes) :
    Except ConfigError UInt16 := do
  let value ← read_required (get_int src) j key section_name
  if value < 1 ∨ 65535 < value then
    throw (.runtime_error
      (str "Porta non valida in sezione '" ++ section_name ++ str "': " ++ to_string value))
  return UInt16.ofInt value.toInt

/-- One element of `lrad_destinations`. -/
def read_destination (src : ConfigSource F) (destination : Json F) :
    Except ConfigError LradDestination := do
  if ¬ is_object destination then
    throw (.runtime_error (str "Elemento non valido in 'lrad_destinations'"))
  let id_value ← read_required (get_int src) destination (str "id") (str "lrad_destinations")
  if id_value < 0 ∨ 65535 < id_value then
    throw (.runtime_error (str "ID LRAD non valido: " ++ to_string id_value))
  let ip_address ← read_required get_string destination (str "ip") (str "lrad_destinations")
  let port ← read_port src destination (str "port") (str "lrad_destinations")
  return { id := UInt16.ofInt id_value.toInt, ip_address := ip_address, port := port }

/-- The `for` loop: `cfg.lrad_destinations[id] = lrad`. -/
def read_destinations (src : ConfigSource F) :
    List (Json F) → RoutingTable → Except ConfigError RoutingTable
  | [], lrad_destinations => .ok lrad_destinations
  | destination :: destinations, lrad_destinations => do
      let lrad ← read_destination src destination
      read_destinations src destinations (lrad_destinations.insert lrad.id lrad)

/-- A section that has to be an object. -/
def read_section (root : Json F) (key what : Bytes) : Except ConfigError (Json F) :=
  match root.find? key with
  | some j => if is_object j then .ok j else .error (.runtime_error what)
  | none => .error (.runtime_error what)

/-- Whether a section is there and an object. -/
def has_section (root : Json F) (key : Bytes) : Bool :=
  match root.find? key with
  | some j => is_object j
  | none => false

/-- The elements of `lrad_destinations`. -/
def read_array (root : Json F) (key what : Bytes) : Except ConfigError (List (Json F)) :=
  match root.find? key with
  | some (.array items) => .ok items
  | _ => .error (.runtime_error what)

/-- The name of the section the ACK target is read from: `ack`, or else `ack_multicast`. -/
def ack_section_name (root : Json F) : Bytes :=
  if has_section root (str "ack") then str "ack" else str "ack_multicast"

/-- `loadAppConfig`, from the document on. -/
def read_root (src : ConfigSource F) (root : Json F) : Except ConfigError AppConfig := do
  let udp ← read_section root (str "udp") (str "Sezione 'udp' mancante o non valida")
  let tcp ← read_section root (str "tcp") (str "Sezione 'tcp' mancante o non valida")
  let ack ← read_section root (ack_section_name root)
    (str "Sezione 'ack' o 'ack_multicast' mancante o non valida")
  let destinations ← read_array root (str "lrad_destinations")
    (str "Sezione 'lrad_destinations' mancante o non valida")
  let udp_listen_ip ← read_required get_string udp (str "listen_ip") (str "udp")
  let udp_multicast_group ← read_required get_string udp (str "multicast_group") (str "udp")
  let udp_multicast_port ← read_port src udp (str "multicast_port") (str "udp")
  let tcp_default_target_ip ← read_required get_string tcp (str "default_target_ip") (str "tcp")
  let tcp_default_target_port ← read_port src tcp (str "default_target_port") (str "tcp")
  let tcp_unicast_target_ip ← read_required get_string tcp (str "unicast_target_ip") (str "tcp")
  let ack_target_ip ← read_required get_string ack (str "ip") (ack_section_name root)
  let ack_target_port ← read_port src ack (str "port") (ack_section_name root)
  let lrad_destinations ← read_destinations src destinations ∅
  if lrad_destinations.isEmpty then
    throw (.runtime_error (str "La lista 'lrad_destinations' e' vuota"))
  return {
    udp_listen_ip := udp_listen_ip
    udp_multicast_group := udp_multicast_group
    udp_multicast_port := udp_multicast_port
    tcp_default_target_ip := tcp_default_target_ip
    tcp_default_target_port := tcp_default_target_port
    tcp_unicast_target_ip := tcp_unicast_target_ip
    ack_target_ip := ack_target_ip
    ack_target_port := ack_target_port
    lrad_destinations := lrad_destinations }

/-- `loadAppConfig`. -/
def loadAppConfig (src : ConfigSource F) (config_path : Bytes) : Except ConfigError AppConfig :=
  match src.file config_path with
  | none => .error (.runtime_error
      (str "Impossibile aprire il file di configurazione: " ++ config_path))
  | some text =>
      match src.extract text with
      | none => .error .parse_error
      | some root => read_root src root

end

end CmsProxy.Config
