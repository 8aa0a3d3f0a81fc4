import ShipInfer.Spill.Reader
import ShipInfer.Spill.RoundTrip

/-!
# What the submitter gets back

Responses and failures of `engine/spill/wire.py`, and what the result reader of
`engine/spill/remote_instance.py` makes of them. A failure comes back as the type of error
that the owner raised. Whatever bytes the peers write, a response settles the future of the
request whose id it names, under that request's tag.
-/

namespace ShipInfer.Spill.Wire

open Layout (fitted)

/-! ## Responses -/

/-- What a slot gives back of a response, to the request whose `context` the submitter kept. -/
def receivedResponse (response : InferenceResponse) (context : RequestContext) : InferenceResponse where
  requestId := response.requestId
  modelName := stripNul response.modelName
  modelVersion := response.modelVersion
  outputs := receivedTensors response.outputs
  context := context
  timings := response.timings
  executedOn := if response.executedOn.kind = .cpu then {} else response.executedOn

theorem responseHead_stored (h : ResponseHead) : responseHead.stored h =
    { h with
      modelName := fitted maxName h.modelName
      executedOn := fitted 16 h.executedOn
      message := fitted 192 h.message } := rfl

theorem stripNul_of_isDigit {cs : List Char} (h : ∀ c ∈ cs.getLast?, c.isDigit = true) :
    stripNul (String.ofList cs) = String.ofList cs := by
  rw [stripNul_eq_iff, String.toList_ofList]
  intro hlast
  have hdigit := h '\x00' hlast
  exact absurd hdigit (by decide)

theorem isDigit_intText_last {v : Int} : ∀ c ∈ (intText v).getLast?, c.isDigit = true := by
  intro c hc
  have hmem : ∀ c ∈ (Nat.toDigits 10 v.natAbs).getLast?, c.isDigit = true := fun c hc =>
    Nat.isDigit_of_mem_toDigits (by decide) (by decide) (List.mem_of_getLast? hc)
  unfold intText at hc
  split at hc
  · rw [List.getLast?_cons_of_ne_nil Nat.toDigits_ne_nil] at hc
    exact hmem c hc
  · exact hmem c hc

/-- `str` and then `Device.parse`. -/
theorem parseDevice_deviceText {device : Device} (h : device.kind = .cuda → 0 ≤ device.index) :
    parseDevice (stripNul (deviceText device)) = .ok (if device.kind = .cpu then {} else device) := by
  obtain ⟨kind, index⟩ := device
  cases kind with
  | cpu =>
    have hlast : "cpu".toList.getLast? ≠ some '\x00' := by decide
    have htext : stripNul (deviceText ⟨.cpu, index⟩) = "cpu" := stripNul_eq_iff.mpr hlast
    have hstrip : strip "cpu".toList = "cpu".toList := by decide
    rw [htext, parseDevice, hstrip]
    rfl
  | cuda =>
    have hindex : ¬index < 0 := not_lt.mpr (h rfl)
    have hne : intText index ≠ [] := by
      rw [intText, if_neg hindex]
      exact Nat.toDigits_ne_nil
    have hlast : ∀ c ∈ ("cuda:".toList ++ intText index).getLast?, c.isDigit = true := by
      intro c hc
      rw [List.getLast?_append_of_ne_nil _ hne] at hc
      exact isDigit_intText_last c hc
    have hstrip : strip ("cuda:".toList ++ intText index) = "cuda:".toList ++ intText index :=
      trim_of_ends (fun c hc => by cases hc; decide) fun c hc => isSpace_of_isDigit (hlast c hc)
    have htext : stripNul (deviceText ⟨.cuda, index⟩) = String.ofList ("cuda:".toList ++ intText index) :=
      stripNul_of_isDigit hlast
    rw [htext, parseDevice, String.toList_ofList, hstrip]
    have htake : ("cuda:".toList ++ intText index).takeWhile (fun c => c ≠ ':') = "cuda".toList := rfl
    have hdrop : (("cuda:".toList ++ intText index).dropWhile (fun c => c ≠ ':')).tail = intText index := rfl
    simp only [htake, hdrop, readInt_intText, if_neg hne, if_neg hindex]
    rfl

theorem encodeResponse_ok {response : InferenceResponse} {view slot : List UInt8} {used : Nat}
    (h : encodeResponse response view = .ok (slot, used)) :
    ∃ heads modelName executedOn head, tensorHeads response.outputs = .ok heads ∧
      needed responseHead.width heads ≤ view.length ∧ fixed response.modelName maxName "model_name" = .ok modelName ∧
      fixed (deviceText response.executedOn) 16 "executed_on" = .ok executedOn ∧
      responseHead.pack
        { magic := magicResponse, version := wireVersion, requestId := response.requestId
          modelVersion := response.modelVersion, tensors := heads.length, status := statusOk
          receivedNs := response.timings.receivedNs, queuedNs := response.timings.queuedNs
          batchedNs := response.timings.batchedNs, computeStartNs := response.timings.computeStartNs
          computeEndNs := response.timings.computeEndNs, completedNs := response.timings.completedNs
          modelName, executedOn, message := [] } = some head ∧
      writeTensors (writeAt view 0 head) responseHead.width heads = .ok (slot, used) := by
  unfold encodeResponse at h
  cases hheads : tensorHeads response.outputs with
  | error e => simp [hheads, bind, Except.bind] at h
  | ok heads =>
    simp only [hheads, bind, Except.bind] at h
    by_cases hroom : view.length < needed responseHead.width heads
    · simp [hroom] at h
    · rw [if_neg hroom] at h
      cases hmodel : fixed response.modelName maxName "model_name" with
      | error e => simp [hmodel] at h
      | ok modelName =>
        cases hdevice : fixed (deviceText response.executedOn) 16 "executed_on" with
        | error e => simp [hmodel, hdevice] at h
        | ok executedOn =>
          simp only [hmodel, hdevice] at h
          split at h
          · cases h
          · rename_i head hpack
            exact ⟨heads, modelName, executedOn, head, rfl, not_lt.mp hroom, rfl, rfl, orFormat_ok hpack, h⟩

/-- `encoded_response_size` -/
def encodedResponseSize (response : InferenceResponse) : Except WireError Nat := do
  let heads ← tensorHeads response.outputs
  .ok (needed responseHead.width heads)

theorem response_read {response : InferenceResponse} {view slot : List UInt8} {used : Nat}
    (h : encodeResponse response view = .ok (slot, used)) (hheld : ∀ p ∈ response.outputs.entries, Held p.2)
    (hdevice : response.executedOn.kind = .cuda → 0 ≤ response.executedOn.index) (context : RequestContext) :
    decodeResponse slot context = .ok (receivedResponse response context) := by
  obtain ⟨heads, modelName, executedOn, head, hheads, hroom, hmodel, hon, hpack, hwrite⟩ := encodeResponse_ok h
  obtain ⟨hhead, houtputs, hused, hlength, -, -⟩ := written hpack hheads hheld hroom hwrite
  have hlong : ¬slot.length < responseHead.width := by
    rw [hlength]
    unfold needed at hroom
    omega
  rw [decodeResponse, if_neg hlong, hhead, responseHead_stored]
  simp only [orFormat, bind, Except.bind, ne_eq, not_true_eq_false, or_self, if_false, houtputs]
  rw [unfixed_fixed hmodel, unfixed_fixed hon, parseDevice_deviceText hdevice]
  rfl

/-- **A response comes out of its slot**, and the slot keeps its other bytes. -/
theorem response_comes_out {response : InferenceResponse} {view slot : List UInt8} {used : Nat}
    (h : encodeResponse response view = .ok (slot, used)) (hheld : ∀ p ∈ response.outputs.entries, Held p.2)
    (hdevice : response.executedOn.kind = .cuda → 0 ≤ response.executedOn.index) (context : RequestContext) :
    decodeResponse slot context = .ok (receivedResponse response context) ∧
      peekRequestId slot = .ok response.requestId ∧ encodedResponseSize response = .ok used ∧
      slot.length = view.length ∧ slot.drop used = view.drop used := by
  obtain ⟨heads, modelName, executedOn, head, hheads, hroom, -, -, hpack, hwrite⟩ := encodeResponse_ok h
  obtain ⟨-, -, hused, hlength, hback, hslot⟩ := written hpack hheads hheld hroom hwrite
  refine ⟨response_read h hheld hdevice context, ?_, ?_, hlength, hback⟩
  · rw [hslot]
    exact peekRequestId_packed hpack
  · rw [encodedResponseSize, hheads, hused]
    rfl

/-- The answer to the request of the round trip. -/
def answer : InferenceResponse where
  requestId := 5
  modelName := "reid"
  modelVersion := 1
  outputs := Dict.empty.set "row" { dtype := .uint8, shape := [2], data := row, sized := row_sized }
  executedOn := { kind := .cuda, index := 1 }

theorem answer_held : ∀ p ∈ answer.outputs.entries, Held p.2 := by decide +kernel

theorem answer_fits : (encodeResponse answer (List.replicate 500 1)).toOption.isSome = true := by decide +kernel

theorem answer_comes_out : ∃ slot used, encodeResponse answer (List.replicate 500 1) = .ok (slot, used) ∧
    decodeResponse slot ask.context = .ok (receivedResponse answer ask.context) := by
  obtain ⟨r, h⟩ := exists_ok answer_fits
  exact ⟨r.1, r.2, h, (response_comes_out h answer_held (fun _ => by decide) ask.context).1⟩

/-! ## Failures -/

/-- The errors that `_status_of` tells apart. -/
inductive ErrorKind
  | queueFull
  | validation
  | other
  deriving DecidableEq

/-- What the owner ran into: the name of its class, its text, and what it is an instance of. -/
structure OwnerError where
  className : String
  text : String
  kind : ErrorKind
  deriving DecidableEq

inductive FailureError
  | slotTooSmall (needed held : Nat)
  | wire (e : WireError)
  deriving DecidableEq

def statusFailed : Nat := 1

/-- `_status_of` -/
def statusOf : ErrorKind → Nat
  | .queueFull => statusQueueFull
  | .validation => statusInvalid
  | .other => statusFailed

def OwnerError.message (error : OwnerError) : String := error.className ++ ": " ++ error.text

/-- The head that `encode_failure` packs. -/
def failureHead (requestId : Int) (modelName : String) (error : OwnerError) : Except WireError (List UInt8) := do
  let modelName ← fixed modelName maxName "model_name"
  orFormat (responseHead.pack
    { magic := magicResponse
      version := wireVersion
      requestId
      modelVersion := -1
      tensors := 0
      status := statusOf error.kind
      receivedNs := 0
      queuedNs := 0
      batchedNs := 0
      computeStartNs := 0
      computeEndNs := 0
      completedNs := 0
      modelName
      executedOn := encode "cpu"
      message := (encode error.message).take 191 })

/-- `encode_failure` -/
def encodeFailure (requestId : Int) (modelName : String) (error : OwnerError) (view : List UInt8) :
    Except FailureError (List UInt8 × Nat) :=
  if view.length < responseHead.width then .error (.slotTooSmall responseHead.width view.length)
  else
    match failureHead requestId modelName error with
    | .error e => .error (.wire e)
    | .ok head => .ok (writeAt view 0 head, responseHead.width)

/-- What the submitter is told: what is left of the message, or that there was none. -/
def told (error : OwnerError) : String :=
  let message := decode (stripZeros ((encode error.message).take 191))
  if message = "" then "the owner failed the request without a message" else message

/-- What the reader makes of what decoding gives; `text` is the text of another error. -/
def decodedOf {ρ : Type} (text : WireError → String) : Except WireError ρ → Decoded ρ
  | .ok response => .response response
  | .error (.remoteFailure message code) => .failure code message
  | .error e => .malformed (text e)

/-- The error that the submitter raises for the owner's. -/
def rehydrated {ρ : Type} (owner : String) (error : OwnerError) : Settled ρ :=
  match error.kind with
  | .queueFull => .queueFull owner (told error)
  | .validation => .validation owner (told error)
  | .other => .remoteFailed owner (told error)

theorem unfixed_cut (bytes : List UInt8) :
    unfixed (fitted 192 (bytes.take 191)) = decode (stripZeros (bytes.take 191)) := by
  have hlength : (bytes.take 191).length ≤ 192 := by
    rw [List.length_take]
    omega
  rw [unfixed, Layout.fitted_of_le hlength, stripZeros_append_zeros]

theorem told_whole {error : OwnerError} (hfits : (encode error.message).length ≤ 191)
    (hend : ¬EndsInNul error.message) : told error = error.message := by
  have hwhole : decode (stripZeros ((encode error.message).take 191)) = error.message := by
    have h := decode_stripZeros error.message 0
    rw [List.replicate_zero, List.append_nil] at h
    rw [List.take_of_length_le hfits, h]
    exact stripNul_eq_iff.mpr hend
  have hne : error.message ≠ "" := by
    intro h
    have hlist := congrArg String.toList h
    simp [OwnerError.message] at hlist
  rw [told]
  simp only [hwhole, if_neg hne]

theorem encodeFailure_ok {requestId : Int} {modelName : String} {error : OwnerError} {view slot : List UInt8}
    {used : Nat} (h : encodeFailure requestId modelName error view = .ok (slot, used)) :
    ∃ head, failureHead requestId modelName error = .ok head ∧ responseHead.width ≤ view.length ∧
      slot = writeAt view 0 head ∧ used = responseHead.width := by
  unfold encodeFailure at h
  by_cases hroom : view.length < responseHead.width
  · simp [hroom] at h
  · rw [if_neg hroom] at h
    split at h
    · cases h
    · rename_i head hhead
      cases h
      exact ⟨head, hhead, not_lt.mp hroom, rfl, rfl⟩

theorem failure_written {requestId : Int} {modelName : String} {error : OwnerError} {view slot : List UInt8}
    {used : Nat} (h : encodeFailure requestId modelName error view = .ok (slot, used)) (context : RequestContext) :
    decodeResponse slot context = .error (.remoteFailure (told error) (statusOf error.kind)) ∧
      peekRequestId slot = .ok requestId ∧ slot.length = view.length ∧ slot.drop used = view.drop used := by
  obtain ⟨head, hhead, hroom, rfl, rfl⟩ := encodeFailure_ok h
  unfold failureHead at hhead
  cases hmodel : fixed modelName maxName "model_name" with
  | error e => simp [hmodel, bind, Except.bind] at hhead
  | ok name =>
    simp only [hmodel, bind, Except.bind] at hhead
    have hpack := orFormat_ok hhead
    have hwidth := responseHead.length_pack hpack
    have hfit : (writeAt view 0 head).length = view.length := length_writeAt (by omega)
    have hlong : ¬(writeAt view 0 head).length < responseHead.width := by omega
    have hslot : writeAt view 0 head = head ++ view.drop responseHead.width := by
      rw [writeAt, List.take_zero, List.nil_append, Nat.zero_add, hwidth]
    refine ⟨?_, ?_, hfit, ?_⟩
    · have hstatus : statusOf error.kind ≠ statusOk := by cases error.kind <;> decide
      rw [decodeResponse, if_neg hlong, hslot, Layout.read_pack hpack, responseHead_stored]
      simp only [orFormat, bind, Except.bind, ne_eq, not_true_eq_false, or_self, if_false, hstatus, not_false_eq_true,
        if_true, unfixed_cut]
      rfl
    · rw [hslot]
      exact peekRequestId_packed hpack
    · have hbehind := drop_behind_writeAt head (Nat.zero_le view.length)
      rwa [Nat.zero_add, hwidth] at hbehind

/-- **A failure comes back as the error it was**, under the id of the request that failed. -/
theorem failure_comes_back {requestId : Int} {modelName : String} {error : OwnerError} {view slot : List UInt8}
    {used : Nat} (h : encodeFailure requestId modelName error view = .ok (slot, used)) (context : RequestContext) :
    peekRequestId slot = .ok requestId ∧
      (∀ text owner, (decodedOf text (decodeResponse slot context)).settles owner = rehydrated owner error) ∧
      ((encode error.message).length ≤ 191 → ¬EndsInNul error.message → told error = error.message) ∧
      slot.length = view.length ∧ slot.drop used = view.drop used := by
  obtain ⟨hdecoded, hpeek, hlength, hback⟩ := failure_written h context
  refine ⟨hpeek, fun text owner => ?_, told_whole, hlength, hback⟩
  rw [hdecoded]
  unfold rehydrated
  cases error.kind <;> rfl

def saturated : OwnerError := { className := "QueueFullError", text := "reid is full", kind := .queueFull }

theorem saturated_comes_back : ∃ slot used, encodeFailure 5 "reid" saturated (List.replicate 500 1) = .ok (slot, used) ∧
    (decodedOf (fun _ => "") (decodeResponse slot ask.context)).settles "west" =
      .queueFull "west" "QueueFullError: reid is full" := by
  have hfits : (encodeFailure 5 "reid" saturated (List.replicate 500 1)).toOption.isSome = true := by decide +kernel
  have htold : rehydrated "west" saturated =
      (.queueFull "west" "QueueFullError: reid is full" : Settled InferenceResponse) := by decide +kernel
  obtain ⟨r, h⟩ := exists_ok hfits
  exact ⟨r.1, r.2, h, ((failure_comes_back h ask.context).2.1 _ _).trans htold⟩

/-! ## Whose answer it is -/

/-- The payload that the reader resolves: the id it peeks, and what decoding gives for the
request that is pending under it. -/
def readPayload (text : WireError → String) (s : ResultReader InferenceResponse) (view : List UInt8) :
    Except WireError (Payload InferenceResponse) := do
  let requestId ← peekRequestId view
  let context := ((s.pending.get? requestId).map fun e => e.item.request.context).getD {}
  .ok { requestId, decoded := decodedOf text (decodeResponse view context) }

/-- A result is what some bytes read as. -/
def FromBytes (text : WireError → String) (s : ResultReader InferenceResponse)
    (e : ReaderEvent InferenceResponse) : Prop :=
  ∀ owner payload, e = .result owner payload → ∃ view, readPayload text s view = .ok payload

/-- The registration that an event makes. -/
def registration : ReaderEvent InferenceResponse → Option WorkItem
  | .expect item _ _ => some item
  | _ => none

def registrations (events : List (ReaderEvent InferenceResponse)) : List WorkItem := events.filterMap registration

/-- A response settles the future of the request it answers, and has that request's tag. -/
def Answers (log : List WorkItem) (settled : Nat × Settled InferenceResponse) : Prop :=
  ∀ r, settled.2 = .response r →
    ∃ item, log[settled.1]? = some item ∧ r.requestId = item.request.requestId ∧ r.context = item.request.context

theorem Answers.later {log : List WorkItem} {settled : Nat × Settled InferenceResponse} (h : Answers log settled)
    (more : List WorkItem) : Answers (log ++ more) settled := by
  intro r hr
  obtain ⟨item, hitem, hanswers⟩ := h r hr
  have hlt : settled.1 < log.length := by
    by_contra hge
    rw [List.getElem?_eq_none (not_lt.mp hge)] at hitem
    cases hitem
  exact ⟨item, by rw [List.getElem?_append_left hlt, hitem], hanswers⟩

/-- Whatever the bytes are, the id peeked is the decoded response's, and its context the one kept. -/
theorem peek_of_decoded {view : List UInt8} {context : RequestContext} {r : InferenceResponse}
    (h : decodeResponse view context = .ok r) : peekRequestId view = .ok r.requestId ∧ r.context = context := by
  unfold decodeResponse at h
  by_cases hshort : view.length < responseHead.width
  · simp [hshort] at h
  · have hread : responseHead.read view = some (responseHead.unpack (view.take responseHead.width)) := if_neg hshort
    have hlong : ¬view.length < 16 := by
      have hwidth : responseHead.width = 352 := rfl
      omega
    have hrest : ¬(view.drop 8).length < 8 := by
      rw [List.length_drop]
      omega
    have hid : (responseHead.unpack (view.take responseHead.width)).requestId = leNat ((view.drop 8).take 8) := by
      show (leNat ((((view.take 352).drop 4).drop 4).take 8) : Int) = _
      rw [List.drop_drop, List.drop_take, List.take_take]
      rfl
    have hpeek : peekRequestId view = .ok (responseHead.unpack (view.take responseHead.width)).requestId := by
      rw [peekRequestId, if_neg hlong, Layout.read]
      show orFormat (if (view.drop 8).length < 8 then none else some ((leNat ((view.drop 8).take 8) : Nat) : Int)) = _
      rw [if_neg hrest, hid]
      rfl
    rw [if_neg hshort, hread] at h
    simp only [orFormat, bind, Except.bind] at h
    split at h
    · cases h
    · split at h
      · cases h
      · split at h
        · cases h
        · split at h
          · cases h
          · cases h
            exact ⟨hpeek, rfl⟩

/-- The registrations so far have the numbers of their futures, and what is in hand answers them. -/
structure Own (s : ResultReader InferenceResponse) (log : List WorkItem) : Prop where
  logged : log.length = s.registered
  keyed : ∀ p ∈ s.pending.entries, log[p.2.future]? = some p.2.item ∧ p.1 = p.2.item.request.requestId
  hands : ∀ h ∈ s.hands, Answers log (h.1.future, h.2)

section
variable {cfg : ReaderConfig} {text : WireError → String} {s t : ResultReader InferenceResponse} {log : List WorkItem}

theorem Own.same (h : Own s log) (hregistered : t.registered = s.registered) (hpending : t.pending = s.pending)
    (hhands : t.hands = s.hands) : Own t log where
  logged := by rw [hregistered, h.logged]
  keyed := by rw [hpending]; exact h.keyed
  hands := by rw [hhands]; exact h.hands

theorem Own.expect (h : Own s log) (item : WorkItem) (owner : String) (now : Int) :
    Own (s.expect cfg item owner now) (log ++ [item]) where
  logged := by
    rw [List.length_append, h.logged]
    rfl
  keyed := by
    intro p hp
    rcases (Dict.mem_set_entries).mp hp with rfl | ⟨hmem, -⟩
    · refine ⟨?_, rfl⟩
      show (log ++ [item])[s.registered]? = some item
      rw [← h.logged, List.getElem?_concat_length]
    · obtain ⟨hitem, hkey⟩ := h.keyed p hmem
      have hlt : p.2.future < log.length := by
        by_contra hge
        rw [List.getElem?_eq_none (not_lt.mp hge)] at hitem
        cases hitem
      exact ⟨by rw [List.getElem?_append_left hlt, hitem], hkey⟩
  hands := fun x hx => (h.hands x hx).later [item]

theorem Own.takeOut (h : Own s log) {which : Int × Entry → Bool} {settled : Entry → Settled InferenceResponse}
    (hother : ∀ e r, settled e ≠ .response r) : Own (s.takeOut which settled) log where
  logged := h.logged
  keyed := fun p hp => h.keyed p (List.mem_of_mem_filter hp)
  hands := by
    intro x hx r hr
    obtain ⟨p, -, rfl⟩ := List.mem_map.mp hx
    exact absurd hr (hother p.2 r)

theorem Own.failStranded (h : Own s log) : Own s.failStranded log where
  logged := h.logged
  keyed := fun p hp => absurd hp List.not_mem_nil
  hands := by
    intro x hx r hr
    obtain ⟨p, -, rfl⟩ := List.mem_map.mp hx
    cases hr

theorem settles_error (owner : String) (e : WireError) {r : InferenceResponse} :
    (decodedOf text (.error e : Except WireError InferenceResponse)).settles owner ≠ .response r := by
  intro h
  cases e with
  | remoteFailure message code =>
    simp only [decodedOf, Decoded.settles] at h
    split at h
    · cases h
    · split at h <;> cases h
  | _ => cases h

theorem Own.resolve (h : Own s log) {owner : String} {payload : Payload InferenceResponse}
    (hbytes : ∃ view, readPayload text s view = .ok payload) : Own (s.resolve owner payload) log := by
  unfold ResultReader.resolve
  cases hpending : s.pending.get? payload.requestId with
  | none => exact h
  | some e =>
    obtain ⟨hitem, hkey⟩ := h.keyed (payload.requestId, e) (Dict.get?_eq_some_iff.mp hpending)
    refine ⟨h.logged, fun p hp => h.keyed p (Dict.mem_erase_entries.mp hp).1, ?_⟩
    intro x hx r hr
    obtain rfl := List.mem_singleton.mp hx
    obtain ⟨view, hview⟩ := hbytes
    unfold readPayload at hview
    cases hpeek : peekRequestId view with
    | error e => simp [hpeek, bind, Except.bind] at hview
    | ok id =>
      simp only [hpeek, bind, Except.bind, Except.ok.injEq] at hview
      subst hview
      simp only [hpending, Option.map_some, Option.getD_some] at hr
      cases hdecoded : decodeResponse view e.item.request.context with
      | error failed =>
        rw [hdecoded] at hr
        exact absurd hr (settles_error owner failed)
      | ok r' =>
        rw [hdecoded] at hr
        cases hr
        obtain ⟨hid, hcontext⟩ := peek_of_decoded hdecoded
        rw [hpeek] at hid
        exact ⟨e.item, hitem, (Except.ok.inj hid).symm.trans hkey, hcontext⟩

theorem Own.looping (h : Own s log) (ht : Own t log) : Own (s.looping t).1 log ∧ (s.looping t).2 = [] := by
  unfold ResultReader.looping
  split
  · exact ⟨ht, rfl⟩
  · exact ⟨h, rfl⟩

theorem Own.checkHeartbeat (h : Own s log) {owner : String} {closed : Bool} {stamped now : Int} :
    Own (s.checkHeartbeat cfg owner closed stamped now) log := by
  unfold ResultReader.checkHeartbeat
  split
  · exact h
  · split
    · exact h.same rfl rfl rfl
    · split
      · exact h
      · have hlost : Own { s with lost := s.lost ++ [owner] } log := h.same rfl rfl rfl
        exact hlost.takeOut fun _ _ hr => by cases hr

theorem Own.settle (h : Own s log) : Own s.settle.1 log ∧ ∀ x ∈ s.settle.2, Answers log x := by
  -- Both of the thread's loops settle the first of what is in its hands.
  have hfirst : ∀ {e settled hands} {t : ResultReader InferenceResponse}, s.hands = (e, settled) :: hands →
      t.registered = s.registered → t.pending = s.pending → t.hands = hands →
        Own t log ∧ ∀ x ∈ [(e.future, settled)], Answers log x := by
    intro e settled hands t hhands hregistered hpending hrest
    have hall := h.hands
    rw [hhands] at hall
    refine ⟨⟨by rw [hregistered, h.logged], by rw [hpending]; exact h.keyed, ?_⟩, ?_⟩
    · rw [hrest]
      exact fun x hx => hall x (List.mem_cons_of_mem _ hx)
    · intro x hx
      obtain rfl := List.mem_singleton.mp hx
      exact hall (e, settled) List.mem_cons_self
  unfold ResultReader.settle
  split
  · exact ⟨⟨h.logged, h.keyed, fun _ hx => absurd hx List.not_mem_nil⟩, fun _ hx => absurd hx List.not_mem_nil⟩
  · rename_i hphase
    exact hfirst (by simp only [ResultReader.hands, hphase]) rfl rfl rfl
  · exact ⟨⟨h.logged, h.keyed, fun _ hx => absurd hx List.not_mem_nil⟩, fun _ hx => absurd hx List.not_mem_nil⟩
  · rename_i hphase
    exact hfirst (by simp only [ResultReader.hands, hphase]) rfl rfl rfl
  · exact ⟨h, fun _ hx => absurd hx List.not_mem_nil⟩

theorem Own.step (cfg : ReaderConfig) (h : Own s log) {e : ReaderEvent InferenceResponse}
    (hbytes : FromBytes text s e) :
    Own (s.step cfg e).1 (log ++ (registration e).toList) ∧ ∀ x ∈ (s.step cfg e).2, Answers log x := by
  have hquiet : ∀ {r : ResultReader.Step InferenceResponse}, Own r.1 log ∧ r.2 = [] →
      Own r.1 (log ++ []) ∧ ∀ x ∈ r.2, Answers log x := by
    intro r ⟨hown, hnone⟩
    rw [List.append_nil, hnone]
    exact ⟨hown, fun _ hx => absurd hx List.not_mem_nil⟩
  cases e with
  | expect item owner now => exact ⟨h.expect item owner now, fun _ hx => absurd hx List.not_mem_nil⟩
  | watch owner => exact hquiet ⟨h.same rfl rfl rfl, rfl⟩
  | stop => exact hquiet ⟨h.same rfl rfl rfl, rfl⟩
  | result owner payload => exact hquiet (h.looping (h.resolve (hbytes owner payload rfl)))
  | heartbeat owner closed stamped now => exact hquiet (h.looping h.checkHeartbeat)
  | expire now => exact hquiet (h.looping (h.takeOut fun _ _ hr => by cases hr))
  | settle =>
    obtain ⟨hown, hanswers⟩ := h.settle
    exact ⟨by rw [show (registration .settle).toList = [] from rfl, List.append_nil]; exact hown, hanswers⟩
  | leave =>
    have hleave : Own (if s.stopping then s.looping s.failStranded else (s, [])).1 log ∧
        (if s.stopping then s.looping s.failStranded else (s, [])).2 = [] := by
      split
      · exact h.looping h.failStranded
      · exact ⟨h, rfl⟩
    exact hquiet hleave
  | raise => exact hquiet (h.looping h.failStranded)

theorem Own.exec : ∀ (events : List (ReaderEvent InferenceResponse)) {s : ResultReader InferenceResponse}
    {log : List WorkItem}, Own s log → Machine.Along (ResultReader.step cfg) (FromBytes text) s events →
      ∀ x ∈ (Machine.exec (ResultReader.step cfg) s events).2.flatten, Answers (log ++ registrations events) x
  | [], _, _, _, _, _, hx => absurd hx List.not_mem_nil
  | e :: events, s, log, h, halong, x, hx => by
    obtain ⟨hown, hanswers⟩ := h.step cfg halong.1
    have hlog : registrations (e :: events) = (registration e).toList ++ registrations events := by
      unfold registrations
      cases hreg : registration e with
      | none => rw [List.filterMap_cons_none hreg]; rfl
      | some item => rw [List.filterMap_cons_some hreg]; rfl
    simp only [Machine.exec, List.flatten_cons] at hx
    rcases List.mem_append.mp hx with hx | hx
    · exact (hanswers x hx).later _
    · rw [hlog, ← List.append_assoc]
      exact Own.exec events hown halong.2 x hx

end

/-- **No answer reaches another request's caller**, whatever bytes the peers write and whatever
the callers and the reader do meanwhile. -/
theorem answer_is_own (cfg : ReaderConfig) (text : WireError → String)
    (events : List (ReaderEvent InferenceResponse))
    (hbytes : Machine.Along (ResultReader.step cfg) (FromBytes text) {} events) :
    ∀ future r, (future, Settled.response r) ∈ (ResultReader.run cfg events).2 →
      ∃ item, (registrations events)[future]? = some item ∧ r.requestId = item.request.requestId ∧
        r.context = item.request.context := by
  intro future r hsettled
  have hown : Own {} [] := ⟨rfl, fun p hp => absurd hp List.not_mem_nil, fun x hx => absurd hx List.not_mem_nil⟩
  exact Own.exec events hown hbytes (future, .response r) hsettled r rfl

def answerSlot : List UInt8 := ((encodeResponse answer (List.replicate 500 1)).toOption.map Prod.fst).getD []

/-- The request is sent, its answer read and the future settled. -/
def answered : List (ReaderEvent InferenceResponse) :=
  [.expect { request := ask } "west" 0,
    .result "west" { requestId := 5, decoded := decodedOf (fun _ => "") (decodeResponse answerSlot ask.context) },
    .settle]

theorem answered_is_own :
    ∃ r item, (0, Settled.response r) ∈ (ResultReader.run { lostAfterNs := 1, pendingDeadlineNs := 1 } answered).2 ∧
      (registrations answered)[0]? = some item ∧ r.requestId = item.request.requestId ∧
        r.context = item.request.context := by
  have hdecoded : decodeResponse answerSlot ask.context = .ok (receivedResponse answer ask.context) := by
    obtain ⟨r, h⟩ := exists_ok answer_fits
    rw [answerSlot, h]
    exact response_read h answer_held (fun _ => by decide) ask.context
  have hpeek : peekRequestId answerSlot = .ok 5 := by decide +kernel
  have hbytes : Machine.Along (ResultReader.step { lostAfterNs := 1, pendingDeadlineNs := 1 })
      (FromBytes fun _ => "") {} answered := by
    refine ⟨fun _ _ h => (by cases h), fun owner payload h => ⟨answerSlot, ?_⟩, fun _ _ h => (by cases h), trivial⟩
    cases h
    rw [readPayload, hpeek]
    rfl
  have hsettled : (0, Settled.response (receivedResponse answer ask.context)) ∈
      (ResultReader.run { lostAfterNs := 1, pendingDeadlineNs := 1 } answered).2 := by
    rw [answered, hdecoded]
    exact List.mem_cons_self
  obtain ⟨item, hitem, hown⟩ := answer_is_own _ _ _ hbytes 0 _ hsettled
  exact ⟨_, item, hsettled, hitem, hown⟩

end ShipInfer.Spill.Wire
