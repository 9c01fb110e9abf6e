/-
The class of a transport error, from the socket to the ACK frame.

An error code is a value and a category. `TcpSender` flattens it into a number
and the category's name, and the converter builds an error code from the number
alone, always in the system category, before it looks it up. The table it is
looked up in is stated here for whole error codes (`documentedReason`); the code
agrees with it on every error of the system category and, of the others, on those
whose number means nothing there (`nack_reason_iff`). `eof` is the one error of
the table that is of another category, and on Linux its reason is lost
(`eof_unclassified`).
-/
import CmsProxy.Calls
import CmsProxy.Converter

set_option autoImplicit false

namespace CmsProxy.NackReason

open BigEndian Interfaces JsonValue Converter Tcp Calls

/-! ## The table -/

section

variable (asio : AsioErrors)

/-- The values of the system category with reason 2, and so on. -/
def parameterValues : List ℤ := [asio.invalid_argument, asio.bad_descriptor]

def stateValues : List ℤ := [asio.already_started, asio.in_progress, asio.operation_aborted]

def notReadyValues : List ℤ :=
  [asio.timed_out, asio.try_again, asio.would_block, asio.not_connected]

def unusableValues : List ℤ :=
  [asio.connection_refused, asio.connection_reset, asio.host_unreachable,
    asio.network_unreachable, asio.network_down, asio.broken_pipe]

/-- `boost::asio::error::eof`. -/
def eof : ErrorCode := { value := asio.eof, category := .misc }

/-- Error codes of the system category. -/
def systemErrors (values : List ℤ) : List ErrorCode :=
  values.map fun value => { value := value, category := .system }

/-- The reason of an error code, by the table. -/
def documentedReason (ec : ErrorCode) : UInt16 :=
  if ec ∈ systemErrors (parameterValues asio) then 2
  else if ec ∈ systemErrors (stateValues asio) then 3
  else if ec ∈ systemErrors (notReadyValues asio) then 4
  else if ec ∈ systemErrors (unusableValues asio) ++ [eof asio] then 5
  else 0

/-- The rows of the table without `eof`, by value. -/
def systemReason (value : ℤ) : UInt16 :=
  if value ∈ parameterValues asio then 2
  else if value ∈ stateValues asio then 3
  else if value ∈ notReadyValues asio then 4
  else if value ∈ unusableValues asio then 5
  else 0

/-- The value is in one of the rows. -/
def Named (value : ℤ) : Prop :=
  value ∈ parameterValues asio ∨ value ∈ stateValues asio ∨ value ∈ notReadyValues asio ∨
    value ∈ unusableValues asio

end

variable {asio : AsioErrors}

theorem mem_systemErrors_iff {values : List ℤ} {ec : ErrorCode} :
    ec ∈ systemErrors values ↔ ec.category = .system ∧ ec.value ∈ values := by
  obtain ⟨value, category⟩ := ec
  rw [systemErrors, List.mem_map]
  constructor
  · rintro ⟨value', hmem, heq⟩
    obtain ⟨rfl, rfl⟩ := ErrorCode.mk.inj heq
    exact ⟨rfl, hmem⟩
  · rintro ⟨rfl, hmem⟩
    exact ⟨value, hmem, rfl⟩

/-- The table, category first. -/
theorem documentedReason_eq (ec : ErrorCode) : documentedReason asio ec =
    if ec.category = .system then systemReason asio ec.value
    else if ec = eof asio then 5 else 0 := by
  simp only [documentedReason, systemReason, List.mem_append, List.mem_singleton,
    mem_systemErrors_iff]
  by_cases hsystem : ec.category = .system
  · have heof : ec ≠ eof asio := by
      rintro rfl
      exact nomatch hsystem
    simp only [hsystem, heof, true_and, or_false, if_true]
  · simp only [hsystem, false_and, false_or, if_false]

theorem systemReason_eq_zero_iff (value : ℤ) :
    systemReason asio value = 0 ↔ ¬ Named asio value := by
  rw [systemReason, Named]
  split_ifs with h2 h3 h4 h5 <;> simp [*]

theorem systemReason_eq_five_iff (value : ℤ) :
    systemReason asio value = 5 ↔ value ∈ unusableValues asio ∧ value ∉ parameterValues asio ∧
      value ∉ stateValues asio ∧ value ∉ notReadyValues asio := by
  rw [systemReason]
  split_ifs with h2 h3 h4 h5 <;> simp [*]

/-! ## Failed calls -/

section

variable {E : Type} [DecidableEq E] {message : ErrorCode → Bytes}

/-- What a failed call returns: one of the errors the network answered with, or
the resolver's own result when it found no endpoint. -/
inductive Failure (message : ErrorCode → Bytes) (answers : Answers E) : SendResult → Prop
  | error {ec : ErrorCode} : ErrorCode.failed ec = true →
      (ec = answers.resolve.1 ∨ ec = answers.connect ∨ ∃ n, answers.write = .breaksAfter n ec) →
      Failure message answers (make_send_result_from_ec message ec)
  | noEndpoint : answers.resolve.2 = [] →
      Failure message answers {
        success := false
        error_value := -1
        error_category := str "resolver"
        error_message := str "Nessun endpoint valido trovato" }

omit [DecidableEq E] in
theorem failure_resolve {host : Bytes} {port : UInt16} {answers : Answers E} {s s' : TcpSender E}
    {result : SendResult} {events : List (NetEvent E)}
    (h : s.resolve_target_endpoint message host port answers.resolve
      = ((result, none), s', events)) : Failure message answers result := by
  rw [TcpSender.resolve_target_endpoint] at h
  cases hcache : s.endpoint_cache_.lookup (cacheKey host port) with
  | some endpoint =>
      rw [hcache] at h
      simp only [Prod.mk.injEq, reduceCtorEq, and_false, false_and] at h
  | none =>
      rw [hcache] at h
      simp only at h
      by_cases hfailed : ErrorCode.failed answers.resolve.1 = true
      · rw [if_pos hfailed] at h
        obtain ⟨hresult, -⟩ := Prod.mk.inj h
        rw [← (Prod.mk.inj hresult).1]
        exact .error hfailed (Or.inl rfl)
      · rw [if_neg hfailed] at h
        cases hresults : answers.resolve.2 with
        | nil =>
            rw [hresults] at h
            obtain ⟨hresult, -⟩ := Prod.mk.inj h
            rw [← (Prod.mk.inj hresult).1]
            exact .noEndpoint hresults
        | cons e rest =>
            rw [hresults] at h
            simp only [Prod.mk.injEq, reduceCtorEq, and_false, false_and] at h

omit [DecidableEq E] in
theorem failure_transmit {packet : Bytes} {answers : Answers E} {s : TcpSender E}
    {before : List (NetEvent E)}
    (h : (transmit message packet answers.write s before).1.success = false) :
    Failure message answers (transmit message packet answers.write s before).1 := by
  rw [transmit] at h ⊢
  rcases write_cases packet answers.write with ⟨ec, hwrite, hok⟩ | ⟨n, ec, hanswer, hwrite, -, hec⟩
  · simp only [hwrite, hok, Bool.false_eq_true, if_false, Bool.true_eq_false] at h
  · simp only [hwrite, hec, if_true]
    exact .error hec (Or.inr (Or.inr ⟨n, hanswer⟩))

/-- **What a failed call returns** is a failure of one of its operations. -/
theorem failure_send {s : TcpSender E} {call : Call E}
    (h : (s.send message call.packet call.target_host call.target_port call.answers).1.success
      = false) :
    Failure message call.answers
      (s.send message call.packet call.target_host call.target_port call.answers).1 := by
  rw [TcpSender.send] at h ⊢
  generalize hresolve : s.resolve_target_endpoint message call.target_host call.target_port
    call.answers.resolve = resolution at h ⊢
  obtain ⟨⟨result, target⟩, s₁, resolving⟩ := resolution
  cases target with
  | none => exact failure_resolve hresolve
  | some target =>
      simp only at h ⊢
      -- on a connected socket it is the write that failed, else maybe the connection
      rcases check_connection_cases target call.answers.remote_endpoint s₁ with
        ⟨hcheck, -⟩ | ⟨closing, hcheck, -⟩
      · rw [hcheck] at h ⊢
        simp only [deliver_kept] at h ⊢
        exact failure_transmit h
      · rw [hcheck] at h ⊢
        cases hconnect : ErrorCode.failed call.answers.connect with
        | true =>
            simp only [deliver_unconnected hconnect]
            exact .error hconnect (Or.inr (Or.inl rfl))
        | false =>
            simp only [deliver_connected hconnect] at h ⊢
            exact failure_transmit h

end

/-! ## The code -/

/-- A category the converter takes for one of the program's own. -/
def OwnCategory (category : ErrorCategory) : Prop :=
  category.name = str "resolver" ∨ category.name = str "engine"

instance instDecidableOwnCategory (category : ErrorCategory) : Decidable (OwnCategory category) :=
  inferInstanceAs (Decidable (_ ∨ _))

/-- The reason the code computes depends on the value, but for two names. The
comparison with `eof` is of two categories, and never holds. -/
theorem map_nack_reason_eq (message : ErrorCode → Bytes) {ec : ErrorCode}
    (h : ErrorCode.failed ec = true) :
    map_nack_reason asio (make_send_result_from_ec message ec) =
      if OwnCategory ec.category then 2 else systemReason asio ec.value := by
  rw [map_nack_reason, make_send_result_failed h]
  simp only [make_send_result_from_ec, OwnCategory, systemReason, parameterValues, stateValues,
    notReadyValues, unusableValues, List.mem_cons, List.not_mem_nil, or_false, ErrorCode.mk.injEq,
    and_true, reduceCtorEq, and_false, decide_false, Bool.or_false, Bool.or_eq_true,
    decide_eq_true_eq, beq_iff_eq, Bool.false_eq_true, if_false]
  by_cases hown : ec.category.name = str "resolver" ∨ ec.category.name = str "engine"
  · rw [if_pos hown, if_pos (by tauto)]
  · obtain ⟨hresolver, hengine⟩ := not_or.mp hown
    simp only [hresolver, hengine, or_false, if_false, or_assoc]

/-- The system category has a name of its own. -/
theorem not_ownCategory_system : ¬ OwnCategory .system := by decide

theorem not_ownCategory_misc : ¬ OwnCategory .misc := by decide

/-- The error codes whose reason is not lost. -/
def ReasonKept (asio : AsioErrors) (ec : ErrorCode) : Prop :=
  ec.category = .system ∨
  (ec = eof asio ∧ ec.value ∈ unusableValues asio ∧ ec.value ∉ parameterValues asio ∧
    ec.value ∉ stateValues asio ∧ ec.value ∉ notReadyValues asio) ∨
  (ec.category ≠ .system ∧ ec ≠ eof asio ∧ ¬ Named asio ec.value ∧ ¬ OwnCategory ec.category)

/-- **The reason of a transport error.** The reason in the ACK is the one of the
table exactly for the errors of the system category, for `eof` where its value
is that of another error with reason 5, and for the errors of other categories
whose value is not in the table and whose category has no name of the program's
own. -/
theorem nack_reason_iff (asio : AsioErrors) (message : ErrorCode → Bytes) (ec : ErrorCode)
    (h : ErrorCode.failed ec = true) :
    map_nack_reason asio (make_send_result_from_ec message ec) = documentedReason asio ec ↔
      ReasonKept asio ec := by
  rw [map_nack_reason_eq message h, documentedReason_eq, ReasonKept]
  by_cases hsystem : ec.category = .system
  · -- both look the value up
    rw [hsystem, if_neg not_ownCategory_system, if_pos rfl]
    exact iff_of_true rfl (Or.inl rfl)
  · rw [if_neg hsystem]
    by_cases heof : ec = eof asio
    · have hmisc : ¬ OwnCategory ec.category := heof ▸ not_ownCategory_misc
      rw [if_neg hmisc, if_pos heof, systemReason_eq_five_iff]
      constructor
      · intro hfive
        exact Or.inr (Or.inl ⟨heof, hfive⟩)
      · rintro (hs | ⟨-, hfive⟩ | ⟨-, hne, -⟩)
        · exact absurd hs hsystem
        · exact hfive
        · exact absurd heof hne
    · rw [if_neg heof]
      by_cases hown : OwnCategory ec.category
      · rw [if_pos hown]
        apply iff_of_false (by decide)
        rintro (hs | ⟨he, -⟩ | ⟨-, -, -, hnot⟩)
        · exact hsystem hs
        · exact heof he
        · exact hnot hown
      · -- of another category, an error has no reason, and its value must not have one
        rw [if_neg hown, systemReason_eq_zero_iff]
        constructor
        · intro hnamed
          exact Or.inr (Or.inr ⟨hsystem, heof, hnamed, hown⟩)
        · rintro (hs | ⟨he, -⟩ | ⟨-, -, hnamed, -⟩)
          · exact absurd hs hsystem
          · exact absurd he heof
          · exact hnamed

/-- A refused connection keeps its reason. -/
theorem nack_reason_iff_refused :
    map_nack_reason .posix (make_send_result_from_ec (fun _ => [])
      { value := 111, category := .system }) = documentedReason .posix
      { value := 111, category := .system } :=
  (nack_reason_iff .posix (fun _ => []) { value := 111, category := .system } rfl).mpr
    (Or.inl rfl)

/-! ## End of stream -/

/-- A connection that ends before the packet does. -/
def cutOff : Call ℕ where
  packet := { data := [1] }
  target_host := []
  target_port := 9000
  answers := { Answers.found 0 with write := .breaksAfter 0 (eof .posix) }

/-- On Linux the call returns `eof`, which has reason 5, and the ACK says 0. -/
theorem eof_unclassified :
    (TcpSender.send (fun _ => []) cutOff.packet cutOff.target_host cutOff.target_port
      cutOff.answers { host_ := [], port_ := 9000 }).1
        = make_send_result_from_ec (fun _ => []) (eof .posix) ∧
    documentedReason .posix (eof .posix) = 5 ∧
    map_nack_reason .posix (make_send_result_from_ec (fun _ => []) (eof .posix)) = 0 := by
  refine ⟨rfl, by decide, ?_⟩
  decide

end CmsProxy.NackReason
