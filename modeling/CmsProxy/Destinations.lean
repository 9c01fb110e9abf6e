/-
Where orders go.

All destinations share one socket and one cache, which is keyed by a string. What
a call writes goes to a connection to an endpoint the resolver has given for
exactly the host and port of the call (`orders_reach_resolved`): the socket is
compared with the endpoint before every write, every entry of the cache has been
resolved for its key (`CacheResolved`), and the key determines host and port,
whatever colons a host contains (`cacheKey_injective`).
-/
import CmsProxy.Calls

set_option autoImplicit false

namespace CmsProxy.Destinations

open BigEndian Interfaces JsonValue Decimal Tcp Calls Runs

/-! ## Keys of the cache -/

/-- A port has no colon in it. -/
theorem colon_not_mem_decimal (n : ℕ) : (58 : UInt8) ∉ decimal n := by
  intro h
  exact absurd (isDigit_decimal n 58 h) (by decide)

/-- What follows the last colon is the port, and what precedes it the host. -/
theorem append_colon_inj {h h' d d' : Bytes} (hd : (58 : UInt8) ∉ d) (hd' : (58 : UInt8) ∉ d')
    (heq : h ++ 58 :: d = h' ++ 58 :: d') : h = h' ∧ d = d' := by
  -- one host is a prefix of the other; a difference would put a colon into a port
  rcases List.append_eq_append_iff.mp heq with ⟨a, rfl, ha⟩ | ⟨a, rfl, ha⟩
  · cases a with
    | nil => exact ⟨(List.append_nil _).symm, (List.cons.inj ha).2⟩
    | cons c a =>
        rw [List.cons_append] at ha
        refine absurd ?_ hd
        rw [(List.cons.inj ha).2]
        exact List.mem_append_right _ List.mem_cons_self
  · cases a with
    | nil => exact ⟨List.append_nil _, (List.cons.inj ha).2.symm⟩
    | cons c a =>
        rw [List.cons_append] at ha
        refine absurd ?_ hd'
        rw [(List.cons.inj ha).2]
        exact List.mem_append_right _ List.mem_cons_self

/-- **Keys.** Two destinations with one key are one destination, whatever colons
their hosts contain. -/
theorem cacheKey_injective {host host' : Bytes} {port port' : UInt16}
    (h : cacheKey host port = cacheKey host' port') : host = host' ∧ port = port' := by
  have hcolon : str ":" = [58] := by decide
  rw [cacheKey, cacheKey, hcolon, List.append_assoc, List.append_assoc, List.singleton_append,
    List.singleton_append] at h
  obtain ⟨hhost, hport⟩ :=
    append_colon_inj (colon_not_mem_decimal _) (colon_not_mem_decimal _) h
  exact ⟨hhost, UInt16.toNat_inj.mp (decimal_injective hport)⟩

section

variable {E : Type}

/-! ## Where orders go -/

/-- Everything done to the network by a construction and the calls after it. -/
def history (constructing : List (NetEvent E))
    (log : List (Entry E)) : List (NetEvent E) :=
  constructing ++ log.flatMap fun entry => entry.2.2

/-- The resolver has given the endpoint, as its first, for this host and port. -/
def ResolvedTo (events : List (NetEvent E)) (host : Bytes) (port : UInt16) (e : E) : Prop :=
  ∃ ec rest, ErrorCode.failed ec = false ∧
    .resolve host (decimal port.toNat) ec (e :: rest) ∈ events

/-- Every entry of the cache has been resolved for its key. -/
def CacheResolved (events : List (NetEvent E)) (s : TcpSender E) : Prop :=
  ∀ key e, (key, e) ∈ s.endpoint_cache_ →
    ∃ host port, key = cacheKey host port ∧ ResolvedTo events host port e

theorem ResolvedTo.append {events : List (NetEvent E)} {host : Bytes} {port : UInt16} {e : E}
    (h : ResolvedTo events host port e) (later : List (NetEvent E)) :
    ResolvedTo (events ++ later) host port e := by
  obtain ⟨ec, rest, hec, hmem⟩ := h
  exact ⟨ec, rest, hec, List.mem_append_left _ hmem⟩

theorem CacheResolved.append {events : List (NetEvent E)} {s : TcpSender E}
    (h : CacheResolved events s) (later : List (NetEvent E)) :
    CacheResolved (events ++ later) s := by
  intro key e hmem
  obtain ⟨host, port, hkey, hresolved⟩ := h key e hmem
  exact ⟨host, port, hkey, hresolved.append later⟩

/-- A lookup keeps the cache resolved. -/
theorem cacheResolved_resolution {events : List (NetEvent E)} {s s' : TcpSender E} {host : Bytes}
    {port : UInt16} {answer : ErrorCode × List E} {result : SendResult} {target : Option E}
    {resolving : List (NetEvent E)} (h : CacheResolved events s)
    (hresolution : Resolution s host port answer result target s' resolving) :
    CacheResolved (events ++ resolving) s' := by
  cases hresolution with
  | cached _ => exact h.append _
  | failed _ _ => exact h.append _
  | resolved hec _ =>
      intro key e hmem
      -- the new entry has just been resolved; the old ones had been before
      rcases List.mem_cons.mp hmem with heq | hmem
      · obtain ⟨rfl, rfl⟩ := Prod.mk.inj heq
        exact ⟨host, port, rfl, _, _, hec, List.mem_append_right _ (List.mem_singleton_self _)⟩
      · exact h.append _ key e hmem

/-- The endpoint of a lookup has been resolved, by this lookup or before. The key
of a cache entry tells which destination it was resolved for. -/
theorem resolvedTo_resolution {events : List (NetEvent E)} {s s' : TcpSender E} {host : Bytes}
    {port : UInt16} {answer : ErrorCode × List E} {result : SendResult} {e : E}
    {resolving : List (NetEvent E)} (h : CacheResolved events s)
    (hresolution : Resolution s host port answer result (some e) s' resolving) :
    ResolvedTo (events ++ resolving) host port e := by
  cases hresolution with
  | cached hlookup =>
      obtain ⟨before, after, hcache, -⟩ := List.lookup_eq_some_iff.mp hlookup
      have hmem : (cacheKey host port, e) ∈ s.endpoint_cache_ := by
        rw [hcache]
        exact List.mem_append_right _ List.mem_cons_self
      -- the entry was resolved for some destination with this key, so for this one
      obtain ⟨host', port', hkey, hresolved⟩ := h _ e hmem
      obtain ⟨rfl, rfl⟩ := cacheKey_injective hkey
      exact hresolved.append _
  | resolved hec _ =>
      exact ⟨_, _, hec, List.mem_append_right _ (List.mem_singleton_self _)⟩

/-- The state of the cache and of nothing else. -/
theorem CacheResolved.congr {events : List (NetEvent E)} {s s' : TcpSender E}
    (h : CacheResolved events s) (hcache : s'.endpoint_cache_ = s.endpoint_cache_) :
    CacheResolved events s' := by
  intro key e hmem
  exact h key e (hcache ▸ hmem)

theorem cache_reached {s s' : TcpSender E} {target : E} {ec : ErrorCode} {c : ℕ}
    {reaching : List (NetEvent E)} (h : Reached s target ec c s' reaching) :
    s'.endpoint_cache_ = s.endpoint_cache_ := by
  cases h <;> rfl

/-- A call keeps the cache resolved. -/
theorem cacheResolved_sends {events : List (NetEvent E)} {s s' : TcpSender E} {call : Call E}
    {result : SendResult} {sending : List (NetEvent E)} (h : CacheResolved events s)
    (hsends : Sends s call result s' sending) : CacheResolved (events ++ sending) s' := by
  cases hsends with
  | unresolved hresolution _ => exact cacheResolved_resolution h hresolution
  | unreached hresolution _ _ _ =>
      rw [← List.append_assoc]
      exact ((cacheResolved_resolution h hresolution).append _).congr rfl
  | whole hresolution hreached =>
      rw [← List.append_assoc]
      exact ((cacheResolved_resolution h hresolution).append _).congr (cache_reached hreached)
  | cut hresolution hreached _ _ _ _ =>
      rw [← List.append_assoc]
      exact ((cacheResolved_resolution h hresolution).append _).congr (cache_reached hreached :)

/-- What is written goes to a connection to an endpoint of the call's destination. -/
theorem resolvedTo_sends {events : List (NetEvent E)} {s s' : TcpSender E} {call : Call E}
    {result : SendResult} {sending : List (NetEvent E)} (h : CacheResolved events s)
    (hsends : Sends s call result s' sending) {on : Socket E} {bytes : Bytes}
    (hwrite : .write on bytes ∈ sending) :
    ∃ c e, on = .connected c e ∧
      ResolvedTo (events ++ sending) call.target_host call.target_port e := by
  have hmem := mem_writes hwrite
  cases hsends with
  | unresolved hresolution _ =>
      -- without an endpoint nothing is written
      rw [hresolution.writes] at hmem
      exact absurd hmem List.not_mem_nil
  | unreached hresolution hclosing _ _ =>
      rw [writes_unreached hresolution hclosing] at hmem
      exact absurd hmem List.not_mem_nil
  | @whole _ target _ _ c _ _ hresolution hreached =>
      rw [writes_after hresolution hreached] at hmem
      obtain ⟨rfl, -⟩ := Prod.mk.inj (List.mem_singleton.mp hmem)
      rw [← List.append_assoc]
      exact ⟨c, target, rfl, (resolvedTo_resolution h hresolution).append _⟩
  | @cut _ _ target _ _ c _ _ _ _ hresolution hreached _ _ _ _ =>
      rw [writes_after hresolution hreached] at hmem
      obtain ⟨rfl, -⟩ := Prod.mk.inj (List.mem_singleton.mp hmem)
      rw [← List.append_assoc]
      exact ⟨c, target, rfl, (resolvedTo_resolution h hresolution).append _⟩

/-- A lookup that fails is not remembered. -/
theorem cache_resolution {s s' : TcpSender E} {host : Bytes} {port : UInt16}
    {answer : ErrorCode × List E} {result : SendResult} {target : Option E}
    {resolving : List (NetEvent E)}
    (h : Resolution s host port answer result target s' resolving)
    (hfailed : ErrorCode.failed answer.1 = true ∨ answer.2 = []) :
    s'.endpoint_cache_ = s.endpoint_cache_ := by
  cases h with
  | cached _ => rfl
  | failed _ _ => rfl
  | resolved hok hresults =>
      -- a lookup that adds an entry has not failed
      rcases hfailed with hfailed | hfailed
      · exact absurd (hok.symm.trans hfailed) Bool.false_ne_true
      · exact absurd (hresults.symm.trans hfailed) (List.cons_ne_nil _ _)

theorem cache_sends {s s' : TcpSender E} {call : Call E} {result : SendResult}
    {events : List (NetEvent E)} (h : Sends s call result s' events)
    (hfailed : ErrorCode.failed call.answers.resolve.1 = true ∨ call.answers.resolve.2 = []) :
    s'.endpoint_cache_ = s.endpoint_cache_ := by
  cases h with
  | unresolved hresolution _ => exact cache_resolution hresolution hfailed
  | unreached hresolution _ _ _ => exact (cache_resolution hresolution hfailed :)
  | whole hresolution hreached =>
      exact (cache_reached hreached).trans (cache_resolution hresolution hfailed)
  | cut hresolution hreached _ _ _ _ =>
      exact (cache_reached hreached).trans (cache_resolution hresolution hfailed)

/-- After the construction the cache is resolved. -/
theorem construct_cacheResolved (message : ErrorCode → Bytes) (host : Bytes) (port : ℤ)
    (answers : Answers E) :
    CacheResolved (construct message host port answers).2
      (construct message host port answers).1 := by
  obtain ⟨resolved, target, s, resolving, hresolution, hcases⟩ :=
    construct_cases message host port answers
  have hempty : CacheResolved [] ({ host_ := host, port_ := port } : TcpSender E) :=
    fun _ _ hmem => absurd hmem List.not_mem_nil
  have hresolved := cacheResolved_resolution hempty hresolution
  rw [List.nil_append] at hresolved
  rcases hcases with ⟨-, hconstruct⟩ | ⟨e, -, hconstruct⟩
  · rw [hconstruct]
    exact hresolved
  · rw [hconstruct]
    apply (hresolved.append _).congr
    rw [TcpSender.connectSocket]
    split_ifs <;> rfl

end

section

variable {E : Type} [DecidableEq E]

/-- **Orders reach their own destination.** After a construction and any calls,
whatever the next call writes goes to a connection to an endpoint the resolver
has given for exactly its host and port; all the cache holds has been resolved,
and a lookup that fails is not remembered. -/
theorem orders_reach_resolved {message : ErrorCode → Bytes} {host : Bytes} {port : ℤ}
    {answers : Answers E} {log : List (Entry E)}
    {s : TcpSender E}
    (h : Run (SendStep message) (construct message host port answers).1 log s) :
    CacheResolved (history (construct message host port answers).2 log) s ∧
    ∀ call o s', SendStep message s call o s' →
      (∀ on bytes, .write on bytes ∈ o.2 → ∃ c e, on = .connected c e ∧
        ResolvedTo (history (construct message host port answers).2 (log ++ [(call, o)]))
          call.target_host call.target_port e) ∧
      (ErrorCode.failed call.answers.resolve.1 = true ∨ call.answers.resolve.2 = [] →
        s'.endpoint_cache_ = s.endpoint_cache_) := by
  have hsnoc : ∀ (log : List (Entry E)) call o,
      history (construct message host port answers).2 (log ++ [(call, o)]) =
        history (construct message host port answers).2 log ++ o.2 := by
    intro log call o
    rw [history, List.flatMap_append, List.flatMap_singleton, ← List.append_assoc, history]
  -- the invariant of all runs; the rest is about the one call after it
  have hcache : CacheResolved (history (construct message host port answers).2 log) s := by
    refine h.history (fun log s =>
      CacheResolved (history (construct message host port answers).2 log) s) ?_ ?_
    · rw [history, List.flatMap_nil, List.append_nil]
      exact construct_cacheResolved message host port answers
    · intro log s call o s' hs hstep
      rw [hsnoc]
      exact cacheResolved_sends hs (sends_of_step hstep)
  refine ⟨hcache, fun call o s' hstep => ⟨fun on bytes hwrite => ?_, fun hfailed => ?_⟩⟩
  · rw [hsnoc]
    exact resolvedTo_sends hcache (sends_of_step hstep) hwrite
  · exact cache_sends (sends_of_step hstep) hfailed

/-- A construction and one call. -/
theorem orders_reach_resolved_one : ∃ log : List (Entry ℕ), log.length = 1 ∧ ∃ s,
    CacheResolved (history (construct (fun _ => []) (str "a:1") 2 (.found 5)).2 log) s ∧
    ∀ call o s', SendStep (fun _ => []) s call o s' →
      (∀ on bytes, .write on bytes ∈ o.2 → ∃ c e, on = .connected c e ∧
        ResolvedTo (history (construct (fun _ => []) (str "a:1") 2 (.found 5)).2
          (log ++ [(call, o)])) call.target_host call.target_port e) ∧
      (ErrorCode.failed call.answers.resolve.1 = true ∨ call.answers.resolve.2 = [] →
        s'.endpoint_cache_ = s.endpoint_cache_) := by
  obtain ⟨result, s, events, hsend, -⟩ := send_sends (fun _ => [])
    (construct (fun _ => []) (str "a:1") 2 (.found 5)).1
    ⟨{ data := [1] }, str "a", 12, .found 6⟩
  exact ⟨[(_, (result, events))], rfl, s, orders_reach_resolved (.snoc .nil hsend)⟩

end

end CmsProxy.Destinations
