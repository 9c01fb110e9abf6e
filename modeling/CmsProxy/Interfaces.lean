/-
The types the components exchange, and what the program takes from outside.

The first half is `include/`: packets, send results, state updates, the result
of a conversion, a routing entry. Field names are the source's. Two fields are
left out because no function reads them: the construction time of a `RawPacket`
and the source address a datagram came from.

The second half is everything the code calls without containing it. C++ `float`
is a type with an arithmetic (`CFloat`); the program is written once over it, and
the machine's floats are the instance `Float32`, whose operations are those of
binary32. What is a library call rather than an operator is a field of
`Runtime`: `sqrt`, `atan2` and `lround`, the JSON library, the error constants of
Boost.Asio. What a proof needs to know about one of these is a named hypothesis
(`Runtime.JsonLaws` here), never a definition.
-/
import CmsProxy.JsonValue
import CmsProxy.Runs

set_option autoImplicit false

namespace CmsProxy.Interfaces

open BigEndian (Bytes)
open JsonValue

/-! ## Packets, results, updates -/

/-- `RawPacket`. A received datagram has destination 0. -/
structure RawPacket where
  data : Bytes
  destinationLradId : UInt16 := 0
  deriving DecidableEq

/-- `SendResult`. -/
structure SendResult where
  success : Bool := false
  error_value : ℤ := 0
  error_category : Bytes := []
  error_message : Bytes := []
  deriving DecidableEq

/-- `double_t`, stored and copied but never computed with: its 64 bits. -/
abbrev double_t := UInt64

/-- `StateUpdate`: a partial update, and also what the state stores per LRAD. -/
structure StateUpdate where
  systemMode : Option Bytes := none
  lradId : Option UInt16 := none
  cueingStatus : Option Bytes := none
  configuration : Option Bytes := none
  online : Option Bool := none
  engaged : Option Bool := none
  audioEnabled : Option Bool := none
  ladEnabled : Option Bool := none
  lrfEnabled : Option Bool := none
  inibithionSector1 : Option double_t := none
  inibithionSector2 : Option double_t := none
  swVersion : Option Bytes := none
  deriving DecidableEq

/-- `SystemStateSnapshot`. -/
structure SystemStateSnapshot where
  systemMode : Bytes := []
  lradStates : Std.ExtTreeMap UInt16 StateUpdate := ∅
  timestampMs : UInt64 := 0

/-- `AckBuilderFunc`: action id, source message id, outcome. -/
abbrev AckBuilderFunc := UInt32 → UInt32 → SendResult → RawPacket

/-- `ConversionResult`. The default `{}` holds an empty `std::function`. -/
structure ConversionResult where
  packets : List RawPacket := []
  ack_builder : Option AckBuilderFunc := none
  ack_only : Bool := false
  state_updates : List StateUpdate := []

/-- `LradDestination`. -/
structure LradDestination where
  id : UInt16
  ip_address : Bytes
  port : UInt16
  deriving DecidableEq

/-- The engine's `lrad_config_`. -/
abbrev RoutingTable := Std.ExtTreeMap UInt16 LradDestination

/-- `ISender`, over the state `S` of the implementation behind it. -/
structure ISender (S : Type) where
  send : RawPacket → Bytes → UInt16 → S → SendResult × S

/-! ## How a call can fail to return a value -/

/-- What ends a call of the modelled code other than by returning. -/
inductive Fault where
  /-- A byte at or past the end of a vector is read: undefined behaviour. -/
  | outOfRange
  /-- `dump()` met a string that is not valid UTF-8: `type_error.316` is thrown. -/
  | invalidUtf8
  /-- An empty `std::function` is called: `std::bad_function_call` is thrown. -/
  | badFunctionCall
  /-- A loop is still running after the rounds the runtime allows it. -/
  | stillRunning
  deriving DecidableEq

section

variable {α β : Type}

@[simp] theorem ok_bind (a : α) (f : α → Except Fault β) : (Except.ok a >>= f) = f a := rfl

@[simp] theorem error_bind (e : Fault) (f : α → Except Fault β) :
    (Except.error e >>= f) = .error e := rfl

@[simp] theorem pure_eq_ok (a : α) : (pure a : Except Fault α) = .ok a := rfl

/-- A sequence that returns has returned at every step. -/
theorem bind_eq_ok {x : Except Fault α} {f : α → Except Fault β} {b : β} :
    (x >>= f) = .ok b ↔ ∃ a, x = .ok a ∧ f a = .ok b := by
  cases x with
  | ok a => simp only [ok_bind, Except.ok.injEq, exists_eq_left']
  | error e => simp only [error_bind, reduceCtorEq, false_and, exists_false]

theorem map_eq_ok {x : Except Fault α} {f : α → β} {b : β} :
    x.map f = .ok b ↔ ∃ a, x = .ok a ∧ f a = b := by
  cases x with
  | ok a => simp only [Except.map, Except.ok.injEq, exists_eq_left']
  | error e => simp only [Except.map, reduceCtorEq, false_and, exists_false]

/-- A part of the returned value shows that there was one. -/
theorem exists_ok_of_map {x : Except Fault α} {f : α → β} {b : β}
    (h : x.toOption.map f = some b) : ∃ a, x = .ok a ∧ f a = b := by
  cases x with
  | ok a => exact ⟨a, rfl, Option.some.inj h⟩
  | error e => exact nomatch h

/-- A loop over a list returns when, and only when, every turn does. -/
theorem mapM_eq_ok {f : α → Except Fault β} {xs : List α} {ys : List β} :
    xs.mapM f = .ok ys ↔ List.Forall₂ (fun x y => f x = .ok y) xs ys := by
  induction xs generalizing ys with
  | nil =>
      rw [List.mapM_nil, List.forall₂_nil_left_iff, pure_eq_ok, Except.ok.injEq, eq_comm]
  | cons x xs ih =>
      simp only [List.mapM_cons, bind_eq_ok, pure_eq_ok, Except.ok.injEq, ih,
        List.forall₂_cons_left_iff]
      constructor
      · rintro ⟨y, hy, ys', hys, rfl⟩
        exact ⟨y, ys', hy, hys, rfl⟩
      · rintro ⟨y, ys', hy, hys, rfl⟩
        exact ⟨y, hy, ys', hys, rfl⟩

theorem mapM_returns_iff {f : α → Except Fault β} {xs : List α} :
    (∃ ys, xs.mapM f = .ok ys) ↔ ∀ x ∈ xs, ∃ y, f x = .ok y := by
  induction xs with
  | nil => exact ⟨fun _ _ hx => absurd hx List.not_mem_nil, fun _ => ⟨[], rfl⟩⟩
  | cons x xs ih =>
      rw [List.forall_mem_cons, ← ih]
      simp only [List.mapM_cons, bind_eq_ok, pure_eq_ok, Except.ok.injEq]
      constructor
      · rintro ⟨_, y, hy, ys, hys, rfl⟩
        exact ⟨⟨y, hy⟩, ys, hys⟩
      · rintro ⟨⟨y, hy⟩, ys, hys⟩
        exact ⟨_, y, hy, ys, hys, rfl⟩

/-- Every element of the first list is related to one of the second. -/
theorem exists_of_forall₂ {R : α → β → Prop} {xs : List α} {ys : List β}
    (h : List.Forall₂ R xs ys) {x : α} (hx : x ∈ xs) : ∃ y ∈ ys, R x y := by
  induction h with
  | nil => exact absurd hx List.not_mem_nil
  | @cons _ y _ _ hR _ ih =>
      -- the partner of the first element is the first one
      rcases List.mem_cons.mp hx with rfl | hx
      · exact ⟨y, List.mem_cons_self, hR⟩
      · obtain ⟨y', hy', hR'⟩ := ih hx
        exact ⟨y', List.mem_cons_of_mem _ hy', hR'⟩

/-- What held element by element of the list holds of the results. -/
theorem forall₂_of_mapM {γ : Type} {R : γ → α → Prop} {S : γ → β → Prop} {f : α → Except Fault β}
    {zs : List γ} {xs : List α} {ys : List β} (hzs : List.Forall₂ R zs xs)
    (h : xs.mapM f = .ok ys) (hS : ∀ z x y, R z x → f x = .ok y → S z y) :
    List.Forall₂ S zs ys := by
  -- both lists hang together through the one in the middle
  have hys := mapM_eq_ok.mp h
  clear h
  induction hzs generalizing ys with
  | nil =>
      cases hys
      exact List.Forall₂.nil
  | cons hR _ ih =>
      cases hys with
      | cons hf hys => exact List.Forall₂.cons (hS _ _ _ hR hf) (ih hys)

end

/-! ## Floating-point numbers -/

/-- What the code does with values of type `float`. -/
class CFloat (F : Type) extends Add F, Sub F, Mul F, Div F, LT F, LE F where
  decLt : DecidableLT F
  decLe : DecidableLE F
  /-- The literal `m * 10 ^ (-e)`. -/
  literal : ℕ → ℕ → F
  /-- The 32 bits of a word, taken as a `float`. -/
  ofBits : UInt32 → F
  /-- Conversion to an integer type, before it is cut to that type's width. -/
  truncate : F → ℤ

instance instDecidableLTCFloat {F : Type} [CFloat F] : DecidableLT F := CFloat.decLt

instance instDecidableLECFloat {F : Type} [CFloat F] : DecidableLE F := CFloat.decLe

/-- binary32, with the rounding of every operation. -/
instance instCFloatFloat32 : CFloat Float32 where
  decLt := inferInstance
  decLe := inferInstance
  literal m e := Float32.ofScientific m true e
  ofBits := Float32.ofBits
  truncate f := f.toModel.unpack.toInt 0 0

/-! ## Errors of Boost.System -/

/-- An error category; the ones Asio uses have names of their own. -/
inductive ErrorCategory where
  | system
  | misc
  | netdb
  | addrinfo
  | other (id : ℕ) (name : Bytes)
  deriving DecidableEq

/-- `category().name()`. -/
def ErrorCategory.name : ErrorCategory → Bytes
  | .system => str "system"
  | .misc => str "asio.misc"
  | .netdb => str "asio.netdb"
  | .addrinfo => str "asio.addrinfo"
  | .other _ name => name

/-- `boost::system::error_code`. Two are equal when value and category are. -/
structure ErrorCode where
  value : ℤ
  category : ErrorCategory
  deriving DecidableEq

/-- The values of `boost::asio::error` the code names, which differ from one
platform to the next. All are of the system category but `eof`. -/
structure AsioErrors where
  invalid_argument : ℤ
  bad_descriptor : ℤ
  already_started : ℤ
  in_progress : ℤ
  operation_aborted : ℤ
  timed_out : ℤ
  try_again : ℤ
  would_block : ℤ
  not_connected : ℤ
  connection_refused : ℤ
  connection_reset : ℤ
  host_unreachable : ℤ
  network_unreachable : ℤ
  network_down : ℤ
  broken_pipe : ℤ
  eof : ℤ

/-- The values on Linux (`errno`). -/
def AsioErrors.posix : AsioErrors where
  invalid_argument := 22
  bad_descriptor := 9
  already_started := 114
  in_progress := 115
  operation_aborted := 125
  timed_out := 110
  try_again := 11
  would_block := 11
  not_connected := 107
  connection_refused := 111
  connection_reset := 104
  host_unreachable := 113
  network_unreachable := 101
  network_down := 100
  broken_pipe := 32
  eof := 2

/-! ## The runtime -/

/-- What the converter and the engine call but the repository does not contain. -/
structure Runtime (F : Type) where
  /-- `std::sqrt(float)`. -/
  sqrt : F → F
  /-- `std::atan2(float, float)`. -/
  atan2 : F → F → F
  /-- `std::lround(float)`; unspecified outside the range of `long`. -/
  lround : F → ℤ
  /-- `json::dump()`; `none` when it throws. -/
  dump : Json F → Option Bytes
  /-- `json::parse(begin, end)`; `none` when it throws. -/
  parse : Bytes → Option (Json F)
  /-- What a float is after being dumped and parsed; `none` when `null` was written. -/
  floatBack : F → Option F
  asio : AsioErrors
  /-- How many rounds a `while` loop is followed for. -/
  fuel : ℕ

/-- What the code relies on in `nlohmann::json`: `dump()` with its default,
strict error handler throws exactly on a string that is not valid UTF-8, and
`parse` of a dumped document gives it back (up to the type of non-negative
integers and the value of floats). -/
structure Runtime.JsonLaws {F : Type} (rt : Runtime F) : Prop where
  dump_eq_none : ∀ j : Json F, rt.dump j = none ↔ j.utf8Ok = false
  parse_dump : ∀ (j : Json F) (s : Bytes), j.Sorted → rt.dump j = some s →
    rt.parse s = some (j.reread rt.floatBack)

end CmsProxy.Interfaces
