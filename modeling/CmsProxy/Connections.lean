/-
All connections together.

`Stream.lean` says what one connection carries. Here they are put side by side, in
the order in which they were opened. What the successful calls were given is what
the connections carry, connection by connection (`InOrder`): a call writes on the
latest connection or opens the next, and never returns to an older one. So a peer
that reads them in their order reads every packet that was reported as delivered,
once and in its place; all that can be in between is, at the end of a connection,
part of a packet that was reported as failed (`carried_and_cut`).

A lookup is made once for a destination. Whatever happens on the network
afterwards, the first endpoint of the one lookup that succeeded is where all its
packets go (`Pinned`).
-/
import CmsProxy.Stream

set_option autoImplicit false

namespace CmsProxy.Connections

open BigEndian Interfaces JsonValue Decimal Tcp Calls Destinations Runs
open CmsProxy.Stream

section

variable {E : Type}

/-! ## What was delivered -/

/-- The packet of a call that reported a success. -/
def delivered (entry : Entry E) : Option Bytes :=
  if entry.2.1.success then some entry.1.packet.data else none

/-- The packets of all of them. -/
def deliveredBy (log : List (Entry E)) : List Bytes := log.filterMap delivered

/-- The packets of those that wrote on the `c`-th connection. -/
def carried (log : List (Entry E)) (c : ℕ) : List Bytes := (writers c log).filterMap delivered

theorem deliveredBy_snoc (log : List (Entry E)) (entry : Entry E) :
    deliveredBy (log ++ [entry]) = deliveredBy log ++ (delivered entry).toList := by
  rw [deliveredBy, List.filterMap_append, deliveredBy]
  cases hdelivered : delivered entry <;> simp [hdelivered]

theorem carried_snoc_of_nil {c : ℕ} {log : List (Entry E)} {entry : Entry E}
    (h : writesOn c entry.2.2 = []) : carried (log ++ [entry]) c = carried log c := by
  rw [carried, writers_snoc_of_nil h, carried]

theorem carried_snoc_of_cons {c : ℕ} {log : List (Entry E)} {entry : Entry E} {bytes : Bytes}
    (h : writesOn c entry.2.2 = [bytes]) :
    carried (log ++ [entry]) c = carried log c ++ (delivered entry).toList := by
  rw [carried, writers_snoc_of_cons h]
  exact deliveredBy_snoc (writers c log) entry

/-- The connections in their order carry what was delivered, and the current one is
the latest. -/
structure InOrder (log : List (Entry E)) (s : TcpSender E) : Prop where
  streams : Streams log s
  latest : ∀ c e, s.socket_ = .connected c e → c + 1 = s.connections
  order : (List.range s.connections).flatMap (carried log) = deliveredBy log

/-- A call that writes nothing has not delivered anything. -/
theorem delivered_of_silent {entry : Entry E}
    (hone : OneWrite entry.1.packet.data entry.2.1 entry.2.2)
    (h : ∀ c, writesOn c entry.2.2 = []) : delivered entry = none := by
  cases hone with
  | nothing _ hfailed => rw [delivered, if_neg (Bool.eq_false_iff.mp hfailed)]
  | whole c e hwrites _ =>
      -- a whole packet would have been written on some connection
      have hon := (writesOn_single hwrites).1
      rw [h c] at hon
      exact nomatch hon
  | part c e n _ _ hfailed => rw [delivered, if_neg (Bool.eq_false_iff.mp hfailed)]

/-- **One call.** Silence changes nothing, and a write is on the latest connection
or on the next. -/
theorem InOrder.step {log : List (Entry E)} {s s' : TcpSender E} {entry : Entry E}
    (h : InOrder log s) (htransition : Transition s s' entry)
    (hone : OneWrite entry.1.packet.data entry.2.1 entry.2.2) : InOrder (log ++ [entry]) s' := by
  have hstreams := h.streams.step htransition
  cases htransition with
  | silent hwrites hconnections hsocket =>
      refine ⟨hstreams, fun c e hc => ?_, ?_⟩
      · rw [hconnections]
        rcases hsocket with hsocket | hsocket
        · exact h.latest c e (hsocket ▸ hc)
        · exact nomatch hsocket.symm.trans hc
      · rw [deliveredBy_snoc, delivered_of_silent hone hwrites, Option.toList_none, List.append_nil,
          hconnections, ← h.order]
        exact List.flatMap_congr fun c _ => carried_snoc_of_nil (hwrites c)
  | wrote c target hconnection hother hresult =>
      -- either way the connection is the latest afterwards
      have hlatest : s'.connections = c + 1 := by
        rcases hconnection with ⟨hsocket, hconnections⟩ | ⟨rfl, hconnections⟩
        · rw [hconnections, h.latest c target hsocket]
        · exact hconnections
      have hbefore : (List.range (c + 1)).flatMap (carried log) = deliveredBy log := by
        rcases hconnection with ⟨hsocket, -⟩ | ⟨rfl, -⟩
        · rw [h.latest c target hsocket]
          exact h.order
        · have hfresh : carried log s.connections = [] := by
            rw [carried, h.streams.fresh _ le_rfl]
            rfl
          rw [List.range_succ, List.flatMap_append, List.flatMap_singleton, hfresh,
            List.append_nil]
          exact h.order
      have hbytes : ∃ bytes, writesOn c entry.2.2 = [bytes] := by
        rcases hresult with ⟨hwhole, -⟩ | ⟨hcut, -⟩
        · exact ⟨_, hwhole.bytes⟩
        · obtain ⟨n, -, hbytes⟩ := hcut.bytes
          exact ⟨_, hbytes⟩
      obtain ⟨bytes, hbytes⟩ := hbytes
      refine ⟨hstreams, fun c' e hc' => ?_, ?_⟩
      · rcases hresult with ⟨-, hsocket⟩ | ⟨-, hsocket⟩
        · obtain ⟨rfl, -⟩ := Socket.connected.inj (hsocket.symm.trans hc')
          exact hlatest.symm
        · exact nomatch hsocket.symm.trans hc'
      · -- the older connections carry what they did
        have hold : (List.range c).flatMap (carried (log ++ [entry])) =
            (List.range c).flatMap (carried log) := by
          apply List.flatMap_congr
          intro c' hc'
          exact carried_snoc_of_nil (hother c' (List.mem_range.mp hc').ne)
        rw [hlatest, List.range_succ, List.flatMap_append, List.flatMap_singleton, hold,
          carried_snoc_of_cons hbytes, ← List.append_assoc, deliveredBy_snoc, ← hbefore,
          List.range_succ, List.flatMap_append, List.flatMap_singleton]

/-- What the constructor leaves behind. -/
theorem construct_inOrder (message : ErrorCode → Bytes) (host : Bytes) (port : ℤ)
    (answers : Answers E) : InOrder [] (construct message host port answers).1 := by
  refine ⟨construct_streams message host port answers, fun c e hsocket => ?_, ?_⟩
  · obtain ⟨resolved, target, s, resolving, hresolution, hcases⟩ :=
      construct_cases message host port answers
    obtain ⟨hclosed, hnone⟩ := frame_resolution hresolution
    rcases hcases with ⟨-, hconstruct⟩ | ⟨e', -, hconstruct⟩
    · rw [hconstruct, hclosed] at hsocket
      exact nomatch hsocket
    · rw [hconstruct] at hsocket ⊢
      cases hfailed : ErrorCode.failed answers.connect with
      | true =>
          rw [connectSocket_failed hfailed] at hsocket
          exact nomatch hsocket
      | false =>
          rw [connectSocket_ok hfailed] at hsocket ⊢
          obtain ⟨rfl, -⟩ := Socket.connected.inj hsocket
          rfl
  · exact List.flatMap_eq_nil_iff.mpr fun _ _ => rfl

/-- The invariants are about the socket and the connections only. -/
theorem InOrder.set_unicast_target {log : List (Entry E)} {s : TcpSender E} (h : InOrder log s)
    (unicast_host : Bytes) : InOrder log (s.set_unicast_target unicast_host) :=
  ⟨⟨h.streams.stream, h.streams.current, h.streams.fresh⟩, h.latest, h.order⟩

/-! ## One connection -/

/-- A part of a packet that is not all of it, of a call that reported a failure. -/
def CutFrom (log : List (Entry E)) (tail : Bytes) : Prop :=
  ∃ entry ∈ log, entry.2.1.success = false ∧ ∃ n < entry.1.packet.data.length,
    tail = entry.1.packet.data.take n

theorem filterMap_delivered_whole {c : ℕ} {sent : List (Entry E)} (h : ∀ w ∈ sent, WholeOn c w) :
    sent.filterMap delivered = sent.map fun w => w.1.packet.data := by
  induction sent with
  | nil => rfl
  | cons w sent ih =>
      obtain ⟨hw, hsent⟩ := List.forall_mem_cons.mp h
      rw [List.filterMap_cons, delivered, if_pos hw.success, ih hsent, List.map_cons]

/-- **One connection.** The bytes of a connection are the packets it carries, and
behind them at most part of a packet that was reported as failed. -/
theorem carried_and_cut {log : List (Entry E)} {s : TcpSender E} (h : Streams log s) (c : ℕ) :
    ∃ tail, bytesOn c log = (carried log c).flatten ++ tail ∧ (tail = [] ∨ CutFrom log tail) := by
  obtain ⟨sent, cut, hwriters, hsent, hlength, hcut⟩ := h.stream c
  rw [bytesOn_writers, carried, hwriters, List.flatMap_append, List.flatten_append,
    flatMap_whole hsent, List.filterMap_append, filterMap_delivered_whole hsent]
  cases cut with
  | nil =>
      refine ⟨[], ?_, Or.inl rfl⟩
      simp only [List.filterMap_nil, List.flatMap_nil, List.flatten_nil, List.append_nil]
  | cons w rest =>
      obtain rfl : rest = [] := by
        rw [List.length_cons] at hlength
        exact List.eq_nil_of_length_eq_zero (by omega)
      obtain ⟨hfailed, n, hn, hbytes⟩ := hcut w (List.mem_singleton_self w)
      have hmem : w ∈ log := by
        have hwriter : w ∈ writers c log := by
          rw [hwriters]
          exact List.mem_append_right _ (List.mem_singleton_self w)
        exact List.mem_of_mem_filter hwriter
      have hnone : [w].filterMap delivered = [] := by
        rw [List.filterMap_cons, delivered, if_neg (Bool.eq_false_iff.mp hfailed)]
        rfl
      refine ⟨w.1.packet.data.take n, ?_, Or.inr ⟨w, hmem, hfailed, n, hn, rfl⟩⟩
      rw [hnone, List.append_nil, List.flatMap_singleton, hbytes, List.flatten_singleton]

/-- Connections to come carry nothing. -/
theorem bytesOn_fresh {log : List (Entry E)} {s : TcpSender E} (h : Streams log s) {c : ℕ}
    (hc : s.connections ≤ c) : bytesOn c log = [] := by
  rw [bytesOn_writers, h.fresh c hc]
  rfl

/-! ## Lookups -/

/-- What a lookup asks for. -/
def asked : NetEvent E → Option (Bytes × Bytes)
  | .resolve host service _ _ => some (host, service)
  | _ => none

/-- The endpoint a lookup has found for this destination. -/
def foundBy (host : Bytes) (port : UInt16) : NetEvent E → Option E
  | .resolve h service ec (e :: _) =>
      if h = host ∧ service = decimal port.toNat ∧ ErrorCode.failed ec = false then some e else none
  | _ => none

/-- What asks for nothing has found nothing. -/
theorem foundBy_of_asked {event : NetEvent E} (h : asked event = none) (host : Bytes)
    (port : UInt16) : foundBy host port event = none := by
  cases event with
  | resolve _ _ _ _ => exact nomatch h
  | _ => rfl

/-- The endpoints all lookups have found for it. -/
def lookups (events : List (NetEvent E)) (host : Bytes) (port : UInt16) : List E :=
  events.filterMap (foundBy host port)

/-- The endpoint an event connects to or writes to. -/
def contacted : NetEvent E → Option E
  | .connect _ e _ => some e
  | .write (.connected _ e) _ => some e
  | _ => none

theorem lookups_append (events events' : List (NetEvent E)) (host : Bytes) (port : UInt16) :
    lookups (events ++ events') host port = lookups events host port ++ lookups events' host port :=
  List.filterMap_append

/-- What the cache has for a destination. -/
def cached (s : TcpSender E) (host : Bytes) (port : UInt16) : Option E :=
  s.endpoint_cache_.lookup (cacheKey host port)

/-- A new entry is for its own destination only. -/
theorem lookup_cons (cache : List (Bytes × E)) (e : E) (host host' : Bytes) (port port' : UInt16) :
    ((cacheKey host port, e) :: cache).lookup (cacheKey host' port') =
      if host = host' ∧ port = port' then some e else cache.lookup (cacheKey host' port') := by
  rw [List.lookup_cons]
  by_cases hsame : host = host' ∧ port = port'
  · obtain ⟨rfl, rfl⟩ := hsame
    simp only [beq_self_eq_true, and_self, if_true]
  · have hkey : (cacheKey host' port' == cacheKey host port) = false := by
      rw [beq_eq_false_iff_ne]
      intro heq
      obtain ⟨rfl, rfl⟩ := cacheKey_injective heq
      exact hsame ⟨rfl, rfl⟩
    simp only [hkey, if_neg hsame]

/-- What a lookup adds to the cache is what it has found. -/
theorem cached_resolution {s s' : TcpSender E} {host : Bytes} {port : UInt16}
    {answer : ErrorCode × List E} {result : SendResult} {target : Option E}
    {resolving : List (NetEvent E)} (h : Resolution s host port answer result target s' resolving)
    (hmiss : s'.endpoint_cache_ ≠ s.endpoint_cache_ → cached s host port = none) :
    (∀ host' port', (cached s' host' port').toList =
      (cached s host' port').toList ++ lookups resolving host' port') ∧
    ∀ e, target = some e → cached s' host port = some e := by
  cases h with
  | cached hlookup =>
      refine ⟨fun host' port' => (List.append_nil _).symm, fun e he => ?_⟩
      rw [← he]
      exact hlookup
  | failed _ hfailed =>
      refine ⟨fun host' port' => ?_, fun e he => nomatch he⟩
      obtain ⟨ec, results⟩ := answer
      have hnothing :
          foundBy host' port' (.resolve host (decimal port.toNat) ec results) = none := by
        rw [foundBy.eq_def]
        cases results with
        | nil => rfl
        | cons e rest =>
            -- with endpoints, the lookup has an error
            have hec : ErrorCode.failed ec = true := hfailed.resolve_right (List.cons_ne_nil e rest)
            simp only [hec, reduceCtorEq, and_false, if_false]
      rw [lookups, List.filterMap_cons, hnothing]
      exact (List.append_nil _).symm
  | @resolved e rest hok _ =>
      have hbefore := hmiss fun heq => absurd (congrArg List.length heq) (by simp)
      refine ⟨fun host' port' => ?_, fun e' he' => ?_⟩
      · have hservice : decimal port.toNat = decimal port'.toNat ↔ port = port' :=
          ⟨fun heq => UInt16.toNat_inj.mp (decimal_injective heq), fun heq => heq ▸ rfl⟩
        rw [cached, lookup_cons, lookups, List.filterMap_cons, foundBy]
        simp only [hservice, hok, and_true]
        by_cases hsame : host = host' ∧ port = port'
        · obtain ⟨rfl, rfl⟩ := hsame
          rw [hbefore]
          simp only [and_self, if_true, Option.toList_some, Option.toList_none, List.nil_append,
            List.filterMap_nil]
        · simp only [if_neg hsame, List.filterMap_nil, List.append_nil]
          rfl
      · obtain rfl := Option.some.inj he'
        rw [cached, lookup_cons, if_pos ⟨rfl, rfl⟩]

/-- The events behind a lookup ask for nothing, and contact its endpoint only. -/
def Contacts (target : E) (events : List (NetEvent E)) : Prop :=
  ∀ event ∈ events, asked event = none ∧ ∀ e, contacted event = some e → e = target

theorem Contacts.lookups {target : E} {events : List (NetEvent E)} (h : Contacts target events)
    (host : Bytes) (port : UInt16) : lookups events host port = [] :=
  List.filterMap_eq_nil_iff.mpr fun event hevent => foundBy_of_asked (h event hevent).1 host port

theorem Contacts.asked {target : E} {events : List (NetEvent E)} (h : Contacts target events) :
    events.filterMap asked = [] :=
  List.filterMap_eq_nil_iff.mpr fun event hevent => (h event hevent).1

theorem Contacts.contacted {target : E} {events : List (NetEvent E)} (h : Contacts target events)
    {e : E} (he : e ∈ events.filterMap contacted) : e = target := by
  obtain ⟨event, hevent, hcontacted⟩ := List.mem_filterMap.mp he
  exact (h event hevent).2 e hcontacted

theorem contacts_closing {target : E} {closing : List (NetEvent E)}
    (h : closing = [] ∨ closing = [.close]) : Contacts target closing := by
  rcases h with rfl | rfl
  · exact fun _ hmem => absurd hmem List.not_mem_nil
  · intro event hevent
    rw [List.mem_singleton.mp hevent]
    exact ⟨rfl, nofun⟩

theorem contacts_cons {target : E} {event : NetEvent E} {events : List (NetEvent E)}
    (hevent : asked event = none)
    (hcontacted : ∀ e, contacted event = some e → e = target) (h : Contacts target events) :
    Contacts target (event :: events) :=
  List.forall_mem_cons.mpr ⟨⟨hevent, hcontacted⟩, h⟩

theorem Contacts.append {target : E} {events events' : List (NetEvent E)}
    (h : Contacts target events) (h' : Contacts target events') :
    Contacts target (events ++ events') := List.forall_mem_append.mpr ⟨h, h'⟩

theorem contacts_connect (target : E) (ec : ErrorCode) :
    Contacts target [.connect .closed target ec] :=
  contacts_cons rfl (fun _ he => (Option.some.inj he).symm)
    (contacts_closing (Or.inl rfl))

theorem contacts_reached {s s' : TcpSender E} {target : E} {ec : ErrorCode} {c : ℕ}
    {reaching : List (NetEvent E)} (h : Reached s target ec c s' reaching) :
    Contacts target reaching := by
  cases h with
  | kept _ => exact contacts_closing (Or.inl rfl)
  | renewed hclosing _ => exact (contacts_closing hclosing).append (contacts_connect target ec)

/-- A lookup asks for its destination, and contacts nobody but the resolver. -/
theorem asked_resolution {s s' : TcpSender E} {host : Bytes} {port : UInt16}
    {answer : ErrorCode × List E} {result : SendResult} {target : Option E}
    {resolving : List (NetEvent E)} (h : Resolution s host port answer result target s' resolving) :
    (∀ q ∈ resolving.filterMap asked, q = (host, decimal port.toNat)) ∧
      resolving.filterMap contacted = [] := by
  cases h with
  | cached _ => exact ⟨fun _ hq => absurd hq List.not_mem_nil, rfl⟩
  | failed _ _ => exact ⟨fun _ hq => List.mem_singleton.mp hq, rfl⟩
  | resolved _ _ => exact ⟨fun _ hq => List.mem_singleton.mp hq, rfl⟩

/-- A call asks for its own destination. What it finds it remembers, and it contacts
the endpoint remembered. -/
structure PinnedCall (s s' : TcpSender E) (call : Call E) (events : List (NetEvent E)) : Prop where
  asked : ∀ q ∈ events.filterMap asked, q = (call.target_host, decimal call.target_port.toNat)
  found : ∀ host port, (cached s' host port).toList =
    (cached s host port).toList ++ lookups events host port
  contacts : ∀ e ∈ events.filterMap contacted,
    cached s' call.target_host call.target_port = some e

/-- A lookup, and what comes behind it. -/
theorem PinnedCall.of_resolution {s s₁ s' : TcpSender E} {call : Call E} {result : SendResult}
    {target : E} {resolving events : List (NetEvent E)}
    (h : Resolution s call.target_host call.target_port call.answers.resolve result (some target)
      s₁ resolving)
    (hmiss : s₁.endpoint_cache_ ≠ s.endpoint_cache_ →
      cached s call.target_host call.target_port = none)
    (hcache : s'.endpoint_cache_ = s₁.endpoint_cache_) (hevents : Contacts target events) :
    PinnedCall s s' call (resolving ++ events) := by
  obtain ⟨hfound, htarget⟩ := cached_resolution h hmiss
  have hsame : ∀ host port, cached s' host port = cached s₁ host port := by
    intro host port
    rw [cached, hcache, cached]
  obtain ⟨hasked, hnobody⟩ := asked_resolution h
  constructor
  · intro q hq
    rw [List.filterMap_append, hevents.asked, List.append_nil] at hq
    exact hasked q hq
  · intro host port
    rw [hsame, hfound, lookups_append, hevents.lookups, List.append_nil]
  · intro e he
    rw [List.filterMap_append, hnobody, List.nil_append] at he
    rw [hsame, hevents.contacted he]
    exact htarget target rfl

theorem pinned_sends {s s' : TcpSender E} {call : Call E} {result : SendResult}
    {events : List (NetEvent E)} (h : Sends s call result s' events)
    (hmiss : s'.endpoint_cache_ ≠ s.endpoint_cache_ →
      cached s call.target_host call.target_port = none) : PinnedCall s s' call events := by
  cases h with
  | unresolved hresolution _ =>
      obtain ⟨hasked, hnobody⟩ := asked_resolution hresolution
      refine ⟨hasked, (cached_resolution hresolution hmiss).1, fun e he => ?_⟩
      rw [hnobody] at he
      exact absurd he List.not_mem_nil
  | unreached hresolution hclosing _ _ =>
      exact .of_resolution hresolution hmiss rfl
        ((contacts_closing hclosing).append (contacts_connect _ _))
  | whole hresolution hreached =>
      have hcache := cache_reached hreached
      refine .of_resolution hresolution (fun hne => hmiss (hcache ▸ hne)) hcache ?_
      exact (contacts_reached hreached).append
        (contacts_cons rfl (fun _ he => (Option.some.inj he).symm)
          (contacts_closing (Or.inl rfl)))
  | cut hresolution hreached _ _ _ _ =>
      have hcache := cache_reached hreached
      refine .of_resolution hresolution (fun hne => hmiss (hcache ▸ hne)) hcache ?_
      exact (contacts_reached hreached).append
        (contacts_cons rfl (fun _ he => (Option.some.inj he).symm)
          (contacts_closing (Or.inr rfl)))

theorem history_snoc (constructing : List (NetEvent E)) (log : List (Entry E)) (entry : Entry E) :
    history constructing (log ++ [entry]) = history constructing log ++ entry.2.2 := by
  rw [history, List.flatMap_append, List.flatMap_singleton, ← List.append_assoc, history]

/-- What every call has asked for; and what the cache holds is what has been found, one
endpoint for a destination, and what every call has contacted. -/
structure Pinned (events : List (NetEvent E)) (log : List (Entry E)) (s : TcpSender E) : Prop where
  asked : ∀ w ∈ log, ∀ q ∈ w.2.2.filterMap asked,
    q = (w.1.target_host, decimal w.1.target_port.toNat)
  found : ∀ host port, lookups events host port = (cached s host port).toList
  contacts : ∀ w ∈ log, ∀ e ∈ w.2.2.filterMap contacted,
    cached s w.1.target_host w.1.target_port = some e

/-- What is in the cache stays there. -/
theorem PinnedCall.keeps {s s' : TcpSender E} {call : Call E} {events : List (NetEvent E)}
    (h : PinnedCall s s' call events) {host : Bytes} {port : UInt16} {e : E}
    (hcached : cached s host port = some e) : cached s' host port = some e := by
  have hfound := h.found host port
  rw [hcached, Option.toList_some, List.singleton_append] at hfound
  cases hcached' : cached s' host port with
  | none =>
      rw [hcached'] at hfound
      exact nomatch hfound
  | some e' =>
      rw [hcached', Option.toList_some] at hfound
      rw [(List.cons.inj hfound).1]

theorem Pinned.step {events : List (NetEvent E)} {log : List (Entry E)} {s s' : TcpSender E}
    {entry : Entry E} (h : Pinned events log s) (hcall : PinnedCall s s' entry.1 entry.2.2) :
    Pinned (events ++ entry.2.2) (log ++ [entry]) s' := by
  refine ⟨fun w hw => ?_, fun host port => ?_, fun w hw e he => ?_⟩
  · rcases List.mem_append.mp hw with hw | hw
    · exact h.asked w hw
    · obtain rfl := List.mem_singleton.mp hw
      exact hcall.asked
  · rw [lookups_append, h.found, ← hcall.found]
  · rcases List.mem_append.mp hw with hw | hw
    · exact hcall.keeps (h.contacts w hw e he)
    · obtain rfl := List.mem_singleton.mp hw
      exact hcall.contacts e he

/-- A connection does not change the cache. -/
theorem cached_connectSocket (s : TcpSender E) (target : E) (ec : ErrorCode) (host : Bytes)
    (port : UInt16) : cached (s.connectSocket target ec) host port = cached s host port := by
  rw [cached, TcpSender.connectSocket]
  split_ifs <;> rfl

/-- The constructor is like a call with nothing to write. -/
structure PinnedConstruct (s : TcpSender E) (host : Bytes) (port : UInt16)
    (events : List (NetEvent E)) : Prop where
  asked : ∀ q ∈ events.filterMap asked, q = (host, decimal port.toNat)
  found : ∀ host' port', lookups events host' port' = (cached s host' port').toList
  contacts : ∀ e ∈ events.filterMap contacted, cached s host port = some e

/-- What the constructor looks up. -/
theorem construct_pinned (message : ErrorCode → Bytes) (host : Bytes) (port : ℤ)
    (answers : Answers E) :
    PinnedConstruct (construct message host port answers).1 host (UInt16.ofInt port)
      (construct message host port answers).2 := by
  obtain ⟨resolved, target, s, resolving, hresolution, hcases⟩ :=
    construct_cases message host port answers
  obtain ⟨hfound, htarget⟩ := cached_resolution hresolution fun _ => rfl
  obtain ⟨hasked, hnobody⟩ := asked_resolution hresolution
  -- the cache is empty to begin with
  have hempty : ∀ host' port',
      cached ({ host_ := host, port_ := port } : TcpSender E) host' port' = none := fun _ _ => rfl
  have hfound' : ∀ host' port', lookups resolving host' port' = (cached s host' port').toList := by
    intro host' port'
    rw [hfound, hempty, Option.toList_none, List.nil_append]
  rcases hcases with ⟨-, hconstruct⟩ | ⟨e, he, hconstruct⟩
  · rw [hconstruct]
    refine ⟨hasked, hfound', fun e he => ?_⟩
    rw [hnobody] at he
    exact absurd he List.not_mem_nil
  · rw [hconstruct]
    have hevents := contacts_connect e answers.connect
    refine ⟨fun q hq => ?_, fun host' port' => ?_, fun e' he' => ?_⟩
    · rw [List.filterMap_append, hevents.asked, List.append_nil] at hq
      exact hasked q hq
    · rw [lookups_append, hevents.lookups, List.append_nil, cached_connectSocket]
      exact hfound' host' port'
    · rw [List.filterMap_append, hnobody, List.nil_append] at he'
      rw [cached_connectSocket, hevents.contacted he']
      exact htarget e he

/-- Where the calls begin. -/
theorem PinnedConstruct.pinned {s : TcpSender E} {host : Bytes} {port : UInt16}
    {constructing : List (NetEvent E)} (h : PinnedConstruct s host port constructing) :
    Pinned constructing [] s :=
  ⟨fun _ hw => absurd hw List.not_mem_nil, h.found, fun _ hw => absurd hw List.not_mem_nil⟩

/-- Nothing of it is about the unicast target. -/
theorem PinnedConstruct.set_unicast_target {s : TcpSender E} {host : Bytes} {port : UInt16}
    {constructing : List (NetEvent E)} (h : PinnedConstruct s host port constructing)
    (unicast_host : Bytes) :
    PinnedConstruct (s.set_unicast_target unicast_host) host port constructing :=
  ⟨h.asked, h.found, h.contacts⟩

end

section

variable {E : Type} [DecidableEq E]

/-! ## Runs -/

omit [DecidableEq E] in
theorem deliver_cache (message : ErrorCode → Bytes) (packet : Bytes) (target : E)
    (need_reconnect : Bool) (answers : Answers E) (s : TcpSender E) :
    (s.deliver message packet target need_reconnect answers).2.1.endpoint_cache_ =
      s.endpoint_cache_ := by
  rw [TcpSender.deliver]
  simp only [TcpSender.connectSocket]
  split_ifs <;> rfl

theorem check_connection_cache (target : E) (remote_endpoint : ErrorCode) (s : TcpSender E) :
    (s.check_connection target remote_endpoint).2.1.endpoint_cache_ = s.endpoint_cache_ := by
  rw [TcpSender.check_connection]
  cases s.socket_ with
  | connected c e =>
      simp only
      split_ifs <;> rfl
  | _ => rfl

/-- A destination that is in the cache is not looked up. -/
theorem cache_of_hit {message : ErrorCode → Bytes} {s s' : TcpSender E} {call : Call E}
    {o : SendResult × List (NetEvent E)} (h : SendStep message s call o s') {e : E}
    (hhit : cached s call.target_host call.target_port = some e) :
    s'.endpoint_cache_ = s.endpoint_cache_ := by
  have hresolve : s.resolve_target_endpoint message call.target_host call.target_port
      call.answers.resolve = (({ success := true }, some e), s, []) := by
    rw [cached] at hhit
    rw [TcpSender.resolve_target_endpoint]
    simp only [hhit]
  rw [SendStep, TcpSender.send, hresolve] at h
  have hstate := congrArg (fun r => TcpSender.endpoint_cache_ r.2.1) h
  exact hstate.symm.trans ((deliver_cache _ _ _ _ _ _).trans (check_connection_cache _ _ _))

theorem pinned_step {message : ErrorCode → Bytes} {s s' : TcpSender E} {call : Call E}
    {o : SendResult × List (NetEvent E)} (h : SendStep message s call o s') :
    PinnedCall s s' call o.2 := by
  refine pinned_sends (sends_of_step h) fun hne => ?_
  -- a hit would have left the cache as it is
  cases hcached : cached s call.target_host call.target_port with
  | none => rfl
  | some e => exact absurd (cache_of_hit h hcached) hne

/-- **Lookups.** In every run a destination is found at most once, and only the
endpoint found for it is contacted. -/
theorem pinned_run {message : ErrorCode → Bytes} {constructing : List (NetEvent E)}
    {s₀ s : TcpSender E} {log : List (Entry E)} (h₀ : Pinned constructing [] s₀)
    (h : Run (SendStep message) s₀ log s) : Pinned (history constructing log) log s := by
  refine h.history (fun log s => Pinned (history constructing log) log s) ?_ ?_
  · rw [history, List.flatMap_nil, List.append_nil]
    exact h₀
  · intro log s call o s' hs hstep
    rw [history_snoc]
    exact hs.step (pinned_step hstep)

/-- What is in the cache of a sender is there after any calls. -/
theorem cached_run {message : ErrorCode → Bytes} {s₀ s : TcpSender E} {log : List (Entry E)}
    (h : Run (SendStep message) s₀ log s) {host : Bytes} {port : UInt16} {e : E}
    (h₀ : cached s₀ host port = some e) : cached s host port = some e :=
  h.invariant (fun s => cached s host port = some e) h₀
    fun _ _ _ _ hs hstep => (pinned_step hstep).keeps hs

/-- **Connections.** In every run the connections carry what was delivered. -/
theorem inOrder_run {message : ErrorCode → Bytes} {s₀ s : TcpSender E} {log : List (Entry E)}
    (h₀ : InOrder [] s₀) (h : Run (SendStep message) s₀ log s) : InOrder log s := by
  refine h.history InOrder h₀ ?_
  intro log s call o s' hs hstep
  exact hs.step (transition_sends (sends_of_step hstep)) (sends_of_step hstep).oneWrite

end

end CmsProxy.Connections
