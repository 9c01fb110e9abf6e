/-
The engine on the network.

The engine knows its sender through `ISender` only, and the theorems about it hold
for every implementation. Here the implementation is `TcpSender`: `networked` is
the sender of `TcpSender.cpp` with a network behind it, which has an answer to the
first call, the second, and so on; whether a connection has been reset since the call
before is part of the answer. A theorem about every such network is one about
everything the network can do, since what it does to a call can only depend on the
calls before.

The calls are recorded as they are made. What the engine has sent is a run of its
sender, so the record is the sends among its effects (`Wired`), and what is known of
sequences of calls holds of the calls of a run.
-/
import CmsProxy.Connections
import CmsProxy.Framing
import CmsProxy.Interleaving

set_option autoImplicit false

namespace CmsProxy.Wire

open BigEndian Interfaces JsonValue Converter Engine Answers Tcp Calls Runs
open Framing (commands)
open Interleaving (History effectsOf performed sends_process follows_run)
open Main (Process ProcessStep)
open Shutdown (initial)
open Connections (delivered deliveredBy)

section

variable {E : Type} [DecidableEq E]

/-! ## The sender as the engine sees it -/

/-- The network: its answers to the calls, and the texts of its errors. -/
structure Network (E : Type) where
  message : ErrorCode → Bytes
  answers : ℕ → Answers E

/-- The sender, with the calls made so far. -/
structure Link (E : Type) where
  tcp : TcpSender E
  calls : List (Entry E) := []

/-- The next call. -/
def Link.call (network : Network E) (packet : RawPacket) (target_host : Bytes)
    (target_port : UInt16) (link : Link E) : Call E where
  packet := packet
  target_host := target_host
  target_port := target_port
  answers := network.answers link.calls.length

/-- `TcpSender` as an `ISender`. -/
def networked (network : Network E) : ISender (Link E) where
  send packet target_host target_port link :=
    let call := link.call network packet target_host target_port
    let (result, tcp, events) :=
      link.tcp.send network.message packet target_host target_port call.answers
    (result, { tcp := tcp, calls := link.calls ++ [(call, (result, events))] })

/-! ## Calls -/

/-- A call as the engine sees it. -/
def asSend (entry : Entry E) : SendCall × SendResult :=
  ((entry.1.packet, entry.1.target_host, entry.1.target_port), entry.2.1)

/-- The calls made are these, with these results, and each was answered by the network. -/
structure Wired (network : Network E) (s₀ : TcpSender E) (sends : List (SendCall × SendResult))
    (link : Link E) : Prop where
  run : Run (SendStep network.message) s₀ link.calls link.tcp
  calls : link.calls.map asSend = sends
  answers : ∀ k entry, link.calls[k]? = some entry → entry.1.answers = network.answers k

/-- A call extends the record. -/
theorem Wired.send {network : Network E} {s₀ : TcpSender E}
    {sends : List (SendCall × SendResult)} {link : Link E} (h : Wired network s₀ sends link)
    (call : SendCall) :
    Wired network s₀
      (sends ++ [(call, ((networked network).send call.1 call.2.1 call.2.2 link).1)])
      ((networked network).send call.1 call.2.1 call.2.2 link).2 := by
  refine ⟨h.run.snoc rfl, ?_, ?_⟩
  · show (link.calls ++ [_]).map asSend = _
    rw [List.map_append, h.calls]
    rfl
  · intro k entry hentry
    have hcalls : (link.calls ++ [_])[k]? = some entry := hentry
    rw [List.getElem?_append] at hcalls
    split_ifs at hcalls with hk
    · exact h.answers k entry hcalls
    · -- the new call is the last one
      have hlast : k - link.calls.length = 0 := by
        by_contra hne
        rw [List.getElem?_eq_none (by rw [List.length_singleton]; omega)] at hcalls
        exact nomatch hcalls
      rw [hlast] at hcalls
      obtain rfl := Option.some.inj hcalls
      show network.answers link.calls.length = network.answers k
      congr 1
      omega

/-- **The calls of a run** of the sender are those it was given. -/
theorem wired_run {network : Network E} {s₀ : TcpSender E}
    {sends : List (SendCall × SendResult)} {link : Link E}
    (h : Run (SenderStep (networked network)) { tcp := s₀ } sends link) :
    Wired network s₀ sends link := by
  refine h.history (Wired network s₀) ⟨.nil, rfl, fun k entry hentry => ?_⟩ ?_
  · exact nomatch (List.getElem?_nil.symm.trans hentry)
  · intro sends link call result link' hs hstep
    obtain ⟨rfl, rfl⟩ := Prod.mk.inj hstep
    exact hs.send call

end

section

variable {E : Type} [DecidableEq E] {F : Type} [CFloat F]

/-- The calls of a run of the process are the sends among its effects. -/
theorem wired_process {eng : ProxyEngine F (Link E)} {network : Network E}
    (heng : eng.sender_ = networked network) {s₀ : TcpSender E} {st₀ : EngineState (Link E)}
    (h₀ : st₀.sender = { tcp := s₀ }) {log : List Shutdown.Entry} {s : Process (Link E)}
    (h : Run (ProcessStep eng) (initial st₀) log s) :
    Wired network s₀ (sendsOf (performed log)) s.state.sender := by
  have hsends := sends_process h
  rw [heng, h₀] at hsends
  exact wired_run hsends

/-- A call has an effect. -/
theorem Wired.mem {network : Network E} {s₀ : TcpSender E} {effects : List Effect} {link : Link E}
    (h : Wired network s₀ (sendsOf effects) link) {w : Entry E} (hw : w ∈ link.calls) :
    .send w.1.packet w.1.target_host w.1.target_port w.2.1 ∈ effects := by
  have hmem : asSend w ∈ sendsOf effects := h.calls ▸ List.mem_map_of_mem hw
  obtain ⟨e, he, hsend⟩ := List.mem_filterMap.mp hmem
  cases e with
  | send packet host port result =>
      have heq := Option.some.inj hsend
      simp only [asSend, Prod.mk.injEq] at heq
      obtain ⟨⟨rfl, rfl, rfl⟩, rfl⟩ := heq
      exact he
  | ack frame => exact nomatch hsend

/-- The packet of a send that succeeded. -/
def sentPacket : Effect → Option Bytes
  | .send packet _ _ result => if result.success then some packet.data else none
  | .ack _ => none

omit [DecidableEq E] in
/-- What the calls have delivered is what the effects report as sent. -/
theorem deliveredBy_eq {calls : List (Entry E)} {effects : List Effect}
    (h : calls.map asSend = sendsOf effects) :
    deliveredBy calls = effects.filterMap sentPacket := by
  have hcalls : ∀ calls : List (Entry E), deliveredBy calls = (calls.map asSend).filterMap
      fun p => if p.2.success then some p.1.1.data else none := by
    intro calls
    rw [List.filterMap_map]
    rfl
  rw [hcalls, h, sendsOf, List.filterMap_filterMap]
  congr 1
  funext e
  cases e <;> rfl

/-! ## What is sent -/

variable {S : Type} {eng : ProxyEngine F S}

omit [CFloat F] in
/-- What is sent of a packet is the packet, to its destination in the table. -/
theorem mem_sendFor {packet p : RawPacket} {outcome result : SendResult} {host : Bytes}
    {port : UInt16} (h : .send p host port result ∈ sendFor eng packet outcome) :
    p = packet ∧ ∃ destination, eng.lrad_config_[packet.destinationLradId]? = some destination ∧
      host = destination.ip_address ∧ port = destination.port := by
  rw [sendFor] at h
  cases hroute : eng.lrad_config_[packet.destinationLradId]? with
  | some destination =>
      rw [hroute] at h
      obtain ⟨rfl, rfl, rfl, -⟩ := Effect.send.inj (List.mem_singleton.mp h)
      exact ⟨rfl, destination, rfl, rfl, rfl⟩
  | none =>
      rw [hroute] at h
      exact absurd h List.not_mem_nil

theorem mem_answers {source_message_id : UInt32} {packets : List RawPacket}
    {results : List SendResult} {p : RawPacket} {host : Bytes} {port : UInt16} {result : SendResult}
    (h : .send p host port result ∈ answers eng source_message_id packets results) :
    p ∈ packets ∧ ∃ destination, eng.lrad_config_[p.destinationLradId]? = some destination ∧
      host = destination.ip_address ∧ port = destination.port := by
  induction packets generalizing results with
  | nil => exact absurd h List.not_mem_nil
  | cons packet packets ih =>
      cases results with
      | nil => exact absurd h List.not_mem_nil
      | cons result' results =>
          rw [answers_cons, answer, List.append_assoc] at h
          rcases List.mem_append.mp h with hsend | hrest
          · obtain ⟨rfl, hroute⟩ := mem_sendFor hsend
            exact ⟨List.mem_cons_self, hroute⟩
          · obtain ⟨hmem, hroute⟩ := ih (List.mem_of_ne_of_mem (by simp) hrest)
            exact ⟨List.mem_cons_of_mem _ hmem, hroute⟩

/-- **Sends.** What is sent in a run is a command of the converter, to the destination
of its LRAD. -/
theorem sends_of_run {st₀ st : EngineState S} {history : History}
    (h : Run (Step eng) st₀ history st) {p : RawPacket} {host : Bytes} {port : UInt16}
    {result : SendResult} (hsend : .send p host port result ∈ effectsOf history) :
    p.data ∈ commands eng.rt ∧
      ∃ destination, eng.lrad_config_[p.destinationLradId]? = some destination ∧
        host = destination.ip_address ∧ port = destination.port := by
  obtain ⟨e, he, hmem⟩ := List.mem_flatMap.mp hsend
  refine h.forall_mem (fun _ => True) (fun _ effects => .send p host port result ∈ effects →
    p.data ∈ commands eng.rt ∧
      ∃ destination, eng.lrad_config_[p.destinationLradId]? = some destination ∧
        host = destination.ip_address ∧ port = destination.port) trivial ?_ e he hmem
  intro st i effects st' _ hstep
  refine ⟨trivial, fun hmem => ?_⟩
  obtain ⟨r, hr, hprocessed⟩ := processPacket_ok hstep
  cases hprocessed with
  | discarded _ => exact absurd hmem List.not_mem_nil
  | acknowledged _ _ => exact absurd (List.mem_singleton.mp hmem) (by simp)
  | delivered _ _ =>
      obtain ⟨hpacket, hroute⟩ := mem_answers hmem
      exact ⟨⟨_, _, r, hr, p, hpacket, rfl⟩, hroute⟩

/-- So it is in a run of the process. -/
theorem sends_of_process {st₀ : EngineState S} {log : List Shutdown.Entry} {s : Process S}
    (h : Run (ProcessStep eng) (initial st₀) log s) {p : RawPacket} {host : Bytes}
    {port : UInt16} {result : SendResult} (hsend : .send p host port result ∈ performed log) :
    p.data ∈ commands eng.rt ∧
      ∃ destination, eng.lrad_config_[p.destinationLradId]? = some destination ∧
        host = destination.ip_address ∧ port = destination.port := by
  obtain ⟨history, st, hrun, hfollows⟩ := follows_run h 0
  -- what the process has done the engine has done
  have hall : .send p host port result ∈ effectsOf history := by
    rw [hfollows.effects]
    exact List.mem_append_left _ hsend
  exact sends_of_run hrun hall

end

end CmsProxy.Wire
