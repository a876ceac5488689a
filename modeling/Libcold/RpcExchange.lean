import Libcold.Runs
import Mathlib.Logic.Function.Basic

namespace Libcold

open Runs

/-- The generated code: the methods under their full names, and the messages that they
take and give. A message that is serialized is parsed as what it was. -/
structure Protobuf where
  Method : Type
  service : Method → List UInt8
  name : Method → List UInt8
  names_unique : ∀ m m', service m = service m' → name m = name m' → m = m'
  MessageType : Type
  input : Method → MessageType
  output : Method → MessageType
  Message : Type
  type : Message → MessageType
  serialize : Message → Option (List UInt8)
  parse : MessageType → List UInt8 → Option Message
  /-- What a failed `ParseFromString` leaves in a message. -/
  partialParse : MessageType → List UInt8 → Message
  parse_serialize : ∀ m bytes, serialize m = some bytes → parse (type m) bytes = some m

inductive ErrorCode
  | noError
  | noService
  | noMethod
  | badRequest
  | timeout
  | internalServerError
  deriving DecidableEq

structure RpcMessage where
  id : Int := 0
  service : List UInt8 := []
  method : List UInt8 := []
  payload : List UInt8 := []
  error : ErrorCode := .noError

/-- The services of a server, by their full names, with the methods of each. -/
structure Services (B : Protobuf) where
  find : List UInt8 → Option (List B.Method)
  named : ∀ service methods, find service = some methods → ∀ m ∈ methods, B.service m = service

/-- What a caller of a `StubCall` asks for. -/
structure StubRequest (B : Protobuf) where
  method : B.Method
  request : B.Message

/-- What `DoServerRpc` comes to. -/
inductive ServerRpc (B : Protobuf)
  | sends (message : RpcMessage)
  | callMethod (method : B.Method) (id : Int) (request : B.Message)

/-- Where the message of a call is: on its way to the server, with a method that has
not called its closure yet, or on its way back. -/
inductive InFlight (B : Protobuf)
  | nothing
  | request (message : RpcMessage)
  | running (method : B.Method) (id : Int) (request : B.Message)
  | reply (message : RpcMessage)

inductive StubStage
  | absent
  | waiting
  | doneRun
  | ended (result : Int)

/-- A call: where its coroutine is, its response object, the id of its message and where
the message is. `handled` is which method took which request and what it produced,
`replied` the message that the server sent for the call. -/
structure StubState (B : Protobuf) where
  stage : StubStage := .absent
  response : Option B.Message := none
  number : Option Int := none
  inFlight : InFlight B := .nothing
  handled : Option (B.Method × B.Message × B.Message) := none
  replied : Option RpcMessage := none

/-- A client's channel and the server's: whether the client's socket is connected, the
counter, `outstandings_`, and the calls. -/
structure RpcExchange (B : Protobuf) (Call : Type) where
  connected : Bool := true
  id : Int := 0
  outstandings : Int → Option Call := fun _ => none
  calls : Call → StubState B := fun _ => {}

inductive RpcExchangeEvent (Call : Type)
  | resume (call : Call)
  | other

namespace RpcExchange

variable {B : Protobuf}

/-- The message that `CallMethod` sends. `SerializeAsString` gives nothing where it fails. -/
def callMessage (r : StubRequest B) (id : Int) : RpcMessage where
  id := id
  service := B.service r.method
  method := B.name r.method
  payload := (B.serialize r.request).getD []

/-- `DoServerRpc`, on bytes that are a message or none. -/
def doServerRpc (services : Services B) : Option RpcMessage → ServerRpc B
  | none => .sends { error := .badRequest }
  | some message =>
      match services.find message.service with
      | none => .sends { id := message.id, error := .noService }
      | some methods =>
          match methods.find? fun m => B.name m = message.method with
          | none => .sends { id := message.id, error := .noMethod }
          | some method =>
              match B.parse (B.input method) message.payload with
              | none => .sends { id := message.id, error := .badRequest }
              | some request => .callMethod method message.id request

/-- `SendResponse`, the closure that a method calls. -/
def sendResponse (response : B.Message) (id : Int) : RpcMessage :=
  match B.serialize response with
  | some data => { id, payload := data }
  | none => { id, error := .internalServerError }

/-- `ParseFromString` into the response object of a call. -/
def readResponse (r : StubRequest B) (reply : RpcMessage) : B.Message :=
  (B.parse (B.output r.method) reply.payload).getD (B.partialParse (B.output r.method) reply.payload)

end RpcExchange

namespace StubState

open RpcExchange

variable {B : Protobuf}

/-- The server has received the message of a call. -/
def serve (services : Services B) (c : StubState B) (message : RpcMessage) : StubState B :=
  match doServerRpc services (some message) with
  | .sends reply => { c with inFlight := .reply reply, replied := some reply }
  | .callMethod method number request => { c with inFlight := .running method number request }

/-- The method calls its closure, which sends nothing on a closed socket. -/
def produce (c : StubState B) (method : B.Method) (id : Int) (request response : B.Message)
    (connected : Bool) : StubState B :=
  { c with
    handled := some (method, request, response)
    inFlight := if connected then .reply (sendResponse response id) else .nothing
    replied := if connected then some (sendResponse response id) else none }

/-- `DoClientRpc` on the call that it finds: an error is only logged. -/
def respond (c : StubState B) (r : StubRequest B) (reply : RpcMessage) : StubState B :=
  { c with
    response := some (readResponse r reply)
    stage := match c.stage with
      | .waiting => .doneRun
      | stage => stage }

end StubState

namespace RpcExchange

variable {B : Protobuf} {Call : Type} [DecidableEq Call]

def put (s : RpcExchange B Call) (k : Call) (c : StubState B) : RpcExchange B Call :=
  { s with calls := Function.update s.calls k c }

/-- `CallMethod`, where calls of other channels move the counter between its two uses. -/
def callMethod (s : RpcExchange B Call) (k : Call) (r : StubRequest B) (elsewhere : Nat) : RpcExchange B Call :=
  { s.put k { s.calls k with
      stage := .waiting
      number := some (s.id + 1)
      inFlight := .request (callMessage r (s.id + 1)) } with
    id := s.id + 1 + elsewhere
    outstandings :=
      if (s.outstandings (s.id + 1 + elsewhere)).isSome then s.outstandings
      else Function.update s.outstandings (s.id + 1 + elsewhere) (some k) }

/-- `DoClientRpc`. -/
def doClientRpc (stub : Call → StubRequest B) (s : RpcExchange B Call) (reply : RpcMessage) : RpcExchange B Call :=
  match s.outstandings reply.id with
  | none => s
  | some k =>
      { s.put k ((s.calls k).respond (stub k) reply) with
        outstandings := Function.update s.outstandings reply.id none }

/-- The steps of the client, the server and its methods, in any order; messages that are
in flight come in any order, and once. The clock and the connection are the environment's. -/
inductive Step (services : Services B) (stub : Call → StubRequest B) :
    RpcExchange B Call → RpcExchangeEvent Call → RpcExchange B Call → Prop
  | notConnected (s) (k) (hstage : (s.calls k).stage = .absent) (hconnected : s.connected = false) :
      Step services stub s .other (s.put k { s.calls k with stage := .ended (-1) })
  | callMethod (s) (k) (elsewhere) (hstage : (s.calls k).stage = .absent) (hconnected : s.connected = true) :
      Step services stub s .other (s.callMethod k (stub k) elsewhere)
  | serve (s) (k) (message) (hrequest : (s.calls k).inFlight = .request message) :
      Step services stub s .other (s.put k ((s.calls k).serve services message))
  | produce (s) (k) (method id request response) (connected)
      (hrunning : (s.calls k).inFlight = .running method id request) (htype : B.type response = B.output method) :
      Step services stub s .other (s.put k ((s.calls k).produce method id request response connected))
  | respond (s) (k) (reply) (hreply : (s.calls k).inFlight = .reply reply) :
      Step services stub s .other ((s.put k { s.calls k with inFlight := .nothing }).doClientRpc stub reply)
  -- the task that `ResumeCoroutine` has spawned
  | resume (s) (k) (hstage : (s.calls k).stage = .doneRun) :
      Step services stub s (.resume k)
        (s.put k { s.calls k with stage := .ended (if s.connected then 0 else -1) })
  | timeout (s) (k) (hstage : (s.calls k).stage = .waiting ∨ (s.calls k).stage = .doneRun) :
      Step services stub s .other (s.put k { s.calls k with stage := .ended (-1) })
  | connection (s) (connected) : Step services stub s .other { s with connected }
  | callsElsewhere (s) (n : Nat) : Step services stub s .other { s with id := s.id + n }

omit [DecidableEq Call] in
/-- A call that ends with 0 has the response that its method produced for its request. One
whose reply is an error, or has a payload that does not parse, ends with a negative result. -/
structure CallOutcome (r : StubRequest B) (c : StubState B) : Prop where
  ownResponse : c.stage = .ended 0 → ∃ response,
    c.handled = some (r.method, r.request, response) ∧ c.response = some response
  negative : ∀ reply result, c.replied = some reply →
    (reply.error ≠ .noError ∨ B.parse (B.output r.method) reply.payload = none) →
    c.stage = .ended result → result < 0

omit [DecidableEq Call] in
def EndToEnd (stub : Call → StubRequest B) (s : RpcExchange B Call) : Prop :=
  ∀ k, CallOutcome (stub k) (s.calls k)

omit [DecidableEq Call] in
/-- The service and the method of a call are registered, its request comes through
serialization, and so does the response that its method has produced. -/
structure Answerable (services : Services B) (r : StubRequest B) (c : StubState B) : Prop where
  registered : ∃ methods, services.find (B.service r.method) = some methods ∧ r.method ∈ methods
  request : B.parse (B.input r.method) ((B.serialize r.request).getD []) = some r.request
  response : ∀ method request response, c.handled = some (method, request, response) → B.serialize response ≠ none

omit [DecidableEq Call] in
/-- A call that is resumed with its socket connected and before its timeout could be answered. -/
def ResumesAnswerable (services : Services B) (stub : Call → StubRequest B) (s : RpcExchange B Call) :
    RpcExchangeEvent Call → Prop
  | .resume k => s.connected = true → Answerable services (stub k) (s.calls k)
  | .other => True

section Call

variable (services : Services B) (r : StubRequest B)

/-- How a message, its id, what was done with it and its reply go together. -/
inductive Journey : InFlight B → Option Int → Option (B.Method × B.Message × B.Message) → Option RpcMessage → Prop
  | notSent : Journey .nothing none none none
  | request (id) : Journey (.request (callMessage r id)) (some id) none none
  | running (id method request)
      (hcall : doServerRpc services (some (callMessage r id)) = .callMethod method id request) :
      Journey (.running method id request) (some id) none none
  | refused (id reply inFlight) (hsends : doServerRpc services (some (callMessage r id)) = .sends reply)
      (hflight : inFlight = .reply reply ∨ inFlight = .nothing) : Journey inFlight (some id) none (some reply)
  | answered (id method request response inFlight)
      (hcall : doServerRpc services (some (callMessage r id)) = .callMethod method id request)
      (htype : B.type response = B.output method)
      (hflight : inFlight = .reply (sendResponse response id) ∨ inFlight = .nothing) :
      Journey inFlight (some id) (some (method, request, response)) (some (sendResponse response id))
  | dropped (id method request response)
      (hcall : doServerRpc services (some (callMessage r id)) = .callMethod method id request)
      (htype : B.type response = B.output method) :
      Journey .nothing (some id) (some (method, request, response)) none

/-- A call whose closure was run has read its reply. -/
structure CallInv (c : StubState B) : Prop where
  journey : Journey services r c.inFlight c.number c.handled c.replied
  unsent : c.stage = .absent → c.number = none
  settled : c.stage = .doneRun ∨ c.stage = .ended 0 → c.inFlight = .nothing ∧
    ∃ reply, c.replied = some reply ∧ c.response = some (readResponse r reply)
  results : ∀ result, c.stage = .ended result → result = 0 ∨ result = -1

omit [DecidableEq Call] in
/-- `DoServerRpc` calls the method of a call, or sends an error. -/
theorem doServerRpc_cases (services : Services B) (r : StubRequest B) (id : Int) :
    (∃ methods request, services.find (B.service r.method) = some methods ∧ r.method ∈ methods ∧
      B.parse (B.input r.method) ((B.serialize r.request).getD []) = some request ∧
      doServerRpc services (some (callMessage r id)) = .callMethod r.method id request) ∨
    ∃ error, error ≠ .noError ∧ doServerRpc services (some (callMessage r id)) = .sends { id, error } ∧
      ∀ methods, services.find (B.service r.method) = some methods → r.method ∈ methods →
        B.parse (B.input r.method) ((B.serialize r.request).getD []) = none := by
  rw [doServerRpc]
  cases hservice : services.find (callMessage r id).service with
  | none => exact .inr ⟨_, by simp, rfl, fun methods hmethods => by cases hservice.symm.trans hmethods⟩
  | some methods =>
      dsimp only
      cases hfind : methods.find? fun m => B.name m = (callMessage r id).method with
      | none =>
          refine .inr ⟨_, by simp, rfl, fun methods' hmethods hmem => ?_⟩
          obtain rfl := Option.some.inj (hservice.symm.trans hmethods)
          exact absurd (decide_eq_true rfl) (List.find?_eq_none.mp hfind r.method hmem)
      | some found =>
          have hmem := List.mem_of_find?_eq_some hfind
          have hfound := List.find?_some hfind
          have hname : B.name found = B.name r.method := of_decide_eq_true hfound
          obtain rfl := B.names_unique found r.method (services.named _ _ hservice found hmem) hname
          cases hparse : B.parse (B.input r.method) (callMessage r id).payload with
          | none => exact .inr ⟨.badRequest, by simp, by simp only [hparse]; rfl, fun _ _ _ => hparse⟩
          | some request => exact .inl ⟨methods, request, hservice, hmem, hparse, by simp only [hparse]; rfl⟩

variable {services r} {c : StubState B} {id : Int}

theorem callMethod_spec {method : B.Method} {number : Int} {request : B.Message}
    (h : doServerRpc services (some (callMessage r id)) = .callMethod method number request) :
    method = r.method ∧ number = id ∧
      (∃ methods, services.find (B.service r.method) = some methods ∧ r.method ∈ methods) ∧
      B.parse (B.input r.method) ((B.serialize r.request).getD []) = some request := by
  obtain ⟨methods, parsed, hservice, hmem, hparse, hcall⟩ | ⟨error, -, hsends, -⟩ := doServerRpc_cases services r id
  · rw [hcall] at h
    cases h
    exact ⟨rfl, rfl, ⟨methods, hservice, hmem⟩, hparse⟩
  · rw [hsends] at h
    cases h

theorem sends_spec {reply : RpcMessage} (h : doServerRpc services (some (callMessage r id)) = .sends reply) :
    reply.id = id ∧ reply.error ≠ .noError ∧ ∀ methods, services.find (B.service r.method) = some methods →
      r.method ∈ methods → B.parse (B.input r.method) ((B.serialize r.request).getD []) = none := by
  obtain ⟨methods, parsed, -, -, -, hcall⟩ | ⟨error, herror, hsends, hnone⟩ := doServerRpc_cases services r id
  · rw [hcall] at h
    cases h
  · rw [hsends] at h
    cases h
    exact ⟨rfl, herror, hnone⟩

theorem sendResponse_id (response : B.Message) (id : Int) : (sendResponse response id).id = id := by
  rw [sendResponse]
  split <;> rfl

/-- The response of a method comes through serialization, or the reply is an error. -/
theorem sendResponse_spec {response : B.Message} (htype : B.type response = B.output r.method) (id : Int) :
    (B.serialize response = none ∧ (sendResponse response id).error ≠ .noError) ∨
      (B.serialize response ≠ none ∧ (sendResponse response id).error = .noError ∧
        B.parse (B.output r.method) (sendResponse response id).payload = some response) := by
  rw [sendResponse]
  cases hserialize : B.serialize response with
  | none => exact .inl ⟨rfl, by simp⟩
  | some data => exact .inr ⟨by simp, rfl, htype ▸ B.parse_serialize response data hserialize⟩

theorem Journey.reply_spec {message : RpcMessage} {number : Option Int}
    {handled : Option (B.Method × B.Message × B.Message)} {replied : Option RpcMessage}
    (h : Journey services r (.reply message) number handled replied) :
    number = some message.id ∧ replied = some message ∧ Journey services r .nothing number handled replied := by
  cases h with
  | refused id reply _ hsends hflight =>
      obtain rfl : message = reply := by simpa using hflight
      obtain ⟨hid, -⟩ := sends_spec hsends
      exact ⟨by rw [hid], rfl, .refused id message .nothing hsends (.inr rfl)⟩
  | answered id method request response _ hcall htype hflight =>
      obtain rfl : message = sendResponse response id := by simpa using hflight
      exact ⟨by rw [sendResponse_id], rfl, .answered id method request response .nothing hcall htype (.inr rfl)⟩

/-- A call that was answered by its reply has the outcome exactly where it could be. -/
theorem outcome_iff_answerable (h : CallInv services r c) (hstage : c.stage = .ended 0) :
    CallOutcome r c ↔ Answerable services r c := by
  obtain ⟨-, reply, hreplied, hresponse⟩ := h.settled (.inr hstage)
  have hjourney := h.journey
  rw [hreplied] at hjourney
  generalize hhandled : c.handled = handled at hjourney
  generalize c.number = number, c.inFlight = inFlight at hjourney
  cases hjourney with
  | refused id _ _ hsends =>
      obtain ⟨-, herror, hnone⟩ := sends_spec hsends
      refine iff_of_false (fun houtcome => ?_) fun hanswerable => ?_
      · exact absurd (houtcome.negative reply 0 hreplied (.inl herror) hstage) (Int.lt_irrefl 0)
      · obtain ⟨methods, hservice, hmem⟩ := hanswerable.registered
        cases (hnone methods hservice hmem).symm.trans hanswerable.request
  | answered id method request response _ hcall htype =>
      obtain ⟨rfl, -, hregistered, hparse⟩ := callMethod_spec hcall
      rcases sendResponse_spec htype id with ⟨hserialize, herror⟩ | ⟨hserialize, herror, hread⟩
      · refine iff_of_false (fun houtcome => ?_) fun hanswerable => ?_
        · exact absurd (houtcome.negative _ 0 hreplied (.inl herror) hstage) (Int.lt_irrefl 0)
        · exact hanswerable.response _ _ _ hhandled hserialize
      · have hown : c.response = some response := by rw [hresponse, readResponse, hread, Option.getD_some]
        constructor
        · intro houtcome
          obtain ⟨response', heq, -⟩ := houtcome.ownResponse hstage
          obtain ⟨-, rfl, -⟩ : r.method = r.method ∧ request = r.request ∧ response = response' := by
            simpa [hhandled] using heq
          refine ⟨hregistered, hparse, fun method request response' heq' => ?_⟩
          obtain ⟨-, -, rfl⟩ : r.method = method ∧ _ ∧ response = response' := by simpa [hhandled] using heq'
          exact hserialize
        · intro hanswerable
          obtain rfl := Option.some.inj (hparse.symm.trans hanswerable.request)
          refine ⟨fun _ => ⟨response, hhandled, hown⟩, fun reply result hreply hfailed => ?_⟩
          obtain rfl := Option.some.inj (hreplied.symm.trans hreply)
          simp [herror, hread] at hfailed

/-- A call that has not ended with 0 has ended with -1, or not yet. -/
theorem CallInv.outcome (h : CallInv services r c) (hstage : c.stage ≠ .ended 0) : CallOutcome r c where
  ownResponse hzero := absurd hzero hstage
  negative reply result _ _ hended := by
    rcases h.results result hended with rfl | rfl
    · exact absurd hended hstage
    · decide

theorem CallInv.fresh : CallInv services r {} where
  journey := .notSent
  unsent _ := rfl
  settled h := by rcases h with h | h <;> cases h
  results _ h := by cases h

theorem CallInv.not_settled (h : CallInv services r c) (hflight : c.inFlight ≠ .nothing) :
    ¬ (c.stage = .doneRun ∨ c.stage = .ended 0) := fun hstage => hflight (h.settled hstage).1

/-- The coroutine of a call ends. -/
theorem CallInv.fail (h : CallInv services r c) : CallInv services r { c with stage := .ended (-1) } where
  journey := h.journey
  unsent hstage := by cases hstage
  settled hstage := by simp at hstage
  results result hstage := by
    cases hstage
    exact .inr rfl

theorem CallInv.complete (h : CallInv services r c) (hstage : c.stage = .doneRun) :
    CallInv services r { c with stage := .ended 0 } where
  journey := h.journey
  unsent hstage := by cases hstage
  settled _ := h.settled (.inl hstage)
  results result hstage := by
    cases hstage
    exact .inl rfl

theorem CallInv.call (h : CallInv services r c) (hstage : c.stage = .absent) (id : Int) :
    CallInv services r
      { c with stage := .waiting, number := some id, inFlight := .request (callMessage r id) } where
  journey := by
    have hjourney := h.journey
    rw [h.unsent hstage] at hjourney
    generalize c.inFlight = inFlight, c.handled = handled, c.replied = replied at hjourney
    cases hjourney with
    | notSent => exact .request id
  unsent hstage := by cases hstage
  settled hstage := by simp at hstage
  results _ hstage := by cases hstage

theorem CallInv.serve {message : RpcMessage} (h : CallInv services r c) (hrequest : c.inFlight = .request message) :
    CallInv services r (c.serve services message) ∧ (c.serve services message).number = c.number ∧
      (c.serve services message).stage = c.stage := by
  have hnot := h.not_settled (by simp [hrequest])
  have hjourney := h.journey
  rw [hrequest] at hjourney
  generalize hnumber : c.number = number, hhandled : c.handled = handled, hreplied : c.replied = replied at hjourney
  cases hjourney with
  | request id =>
      rw [StubState.serve]
      cases hserver : doServerRpc services (some (callMessage r id)) with
      | sends reply =>
          refine ⟨⟨?_, h.unsent, fun hstage => absurd hstage hnot, h.results⟩, hnumber, rfl⟩
          simpa only [hnumber, hhandled] using .refused id reply _ hserver (.inl rfl)
      | callMethod method number request =>
          obtain ⟨-, rfl, -⟩ := callMethod_spec hserver
          refine ⟨⟨?_, h.unsent, fun hstage => absurd hstage hnot, h.results⟩, hnumber, rfl⟩
          simpa only [hnumber, hhandled, hreplied] using .running number method request hserver
  | refused id reply _ hsends hflight => simp at hflight
  | answered id method request response _ hcall htype hflight => simp at hflight

theorem CallInv.produce {method : B.Method} {id : Int} {request response : B.Message} (h : CallInv services r c)
    (hrunning : c.inFlight = .running method id request) (htype : B.type response = B.output method)
    (connected : Bool) : CallInv services r (c.produce method id request response connected) := by
  have hnot := h.not_settled (by simp [hrunning])
  refine ⟨?_, h.unsent, fun hstage => absurd hstage hnot, h.results⟩
  have hjourney := h.journey
  rw [hrunning] at hjourney
  simp only [StubState.produce]
  generalize c.number = number, c.handled = handled, c.replied = replied at hjourney ⊢
  cases hjourney with
  | running _ _ _ hcall =>
      cases connected with
      | true => exact .answered id method request response _ hcall htype (.inl rfl)
      | false => exact .dropped id method request response hcall htype
  | refused id reply _ hsends hflight => simp at hflight
  | answered id method request response _ hcall htype hflight => simp at hflight

/-- A reply reaches the channel. -/
theorem CallInv.arrive {reply : RpcMessage} (h : CallInv services r c) (hreply : c.inFlight = .reply reply) :
    CallInv services r { c with inFlight := .nothing } := by
  have hjourney := h.journey
  rw [hreply] at hjourney
  exact ⟨hjourney.reply_spec.2.2, h.unsent, fun hstage => absurd hstage (h.not_settled (by simp [hreply])), h.results⟩

theorem respond_stage (reply : RpcMessage) {stage : StubStage} (h : (c.respond r reply).stage = stage)
    (hstage : stage ≠ .doneRun) : c.stage = stage := by
  simp only [StubState.respond] at h
  split at h
  · exact absurd h.symm hstage
  · exact h

theorem CallInv.respond {reply : RpcMessage} (h : CallInv services r c) (hflight : c.inFlight = .nothing)
    (hreplied : c.replied = some reply) : CallInv services r (c.respond r reply) where
  journey := h.journey
  unsent hstage := h.unsent (respond_stage reply hstage (by simp))
  settled _ := ⟨hflight, reply, hreplied, rfl⟩
  results result hstage := h.results result (respond_stage reply hstage (by simp))

end Call

section

variable {services : Services B} {stub : Call → StubRequest B} {s t : RpcExchange B Call} {k : Call} {c : StubState B}
  {e : RpcExchangeEvent Call}

omit [DecidableEq Call] in
/-- No message has the id under which another call is registered. -/
structure Inv (services : Services B) (stub : Call → StubRequest B) (s : RpcExchange B Call) : Prop where
  calls : ∀ k, CallInv services (stub k) (s.calls k)
  outcomes : EndToEnd stub s
  numbers : ∀ k id, (s.calls k).number = some id → id ≤ s.id
  keys : ∀ id k, s.outstandings id = some k → id ≤ s.id ∧ ∀ k' ≠ k, (s.calls k').number ≠ some id

theorem put_self (s : RpcExchange B Call) (k : Call) (c : StubState B) : (s.put k c).calls k = c :=
  Function.update_self ..

theorem put_other (s : RpcExchange B Call) {k k' : Call} (c : StubState B) (h : k' ≠ k) :
    (s.put k c).calls k' = s.calls k' :=
  Function.update_of_ne h ..

theorem forall_put {p : Call → StubState B → Prop} (h : ∀ k, p k (s.calls k)) (hc : p k c) (k' : Call) :
    p k' ((s.put k c).calls k') :=
  (Function.forall_update_iff s.calls p).mpr ⟨hc, fun k' _ => h k'⟩ k'

theorem Inv.put (h : Inv services stub s) (hcall : CallInv services (stub k) c)
    (hnumber : c.number = (s.calls k).number) (houtcome : CallOutcome (stub k) c) : Inv services stub (s.put k c) where
  calls := forall_put h.calls hcall
  outcomes := forall_put (p := fun k => CallOutcome (stub k)) h.outcomes houtcome
  numbers k' id hid := by
    refine forall_put (p := fun _ c => ∀ id, c.number = some id → id ≤ s.id) h.numbers ?_ k' id hid
    rw [hnumber]
    exact h.numbers k
  keys id key hkey := by
    refine ⟨(h.keys id key hkey).1, fun k' hne => ?_⟩
    refine forall_put (p := fun k' c => k' ≠ key → c.number ≠ some id) (h.keys id key hkey).2 ?_ k' hne
    rw [hnumber]
    exact (h.keys id key hkey).2 k

theorem Inv.callMethod (h : Inv services stub s) (hstage : (s.calls k).stage = .absent) (elsewhere : Nat) :
    Inv services stub (s.callMethod k (stub k) elsewhere) where
  calls := forall_put h.calls ((h.calls k).call hstage (s.id + 1))
  outcomes := by
    refine forall_put (p := fun k => CallOutcome (stub k)) h.outcomes ?_
    exact ((h.calls k).call hstage (s.id + 1)).outcome (by simp)
  numbers k' id hid := by
    have hbound : ∀ id, (s.calls k').number = some id → id ≤ s.id + 1 + elsewhere := fun id hid => by
      have hle := h.numbers k' id hid
      omega
    by_cases hk : k' = k
    · subst hk
      obtain rfl : s.id + 1 = id := by simpa [RpcExchange.callMethod, put_self] using hid
      exact Int.le_add_of_nonneg_right (Int.natCast_nonneg elsewhere)
    · exact hbound id ((congrArg StubState.number (put_other s _ hk)).symm.trans hid)
  keys id key hkey := by
    have hfree : s.outstandings (s.id + 1 + elsewhere) = none := by
      cases hentry : s.outstandings (s.id + 1 + elsewhere) with
      | none => rfl
      | some other =>
          have hle := (h.keys _ _ hentry).1
          omega
    simp only [RpcExchange.callMethod, hfree, Option.isSome_none, Bool.false_eq_true, if_false] at hkey ⊢
    by_cases hid : id = s.id + 1 + elsewhere
    · subst hid
      obtain rfl : k = key := by simpa using hkey
      refine ⟨Int.le_refl _, fun k' hne hnumber => ?_⟩
      have hle := h.numbers k' _ ((congrArg StubState.number (put_other s _ hne)).symm.trans hnumber)
      omega
    · rw [Function.update_of_ne hid] at hkey
      obtain ⟨hle, hnone⟩ := h.keys id key hkey
      refine ⟨by omega, fun k' hne hnumber => ?_⟩
      by_cases hk : k' = k
      · subst hk
        obtain rfl : s.id + 1 = id := by simpa [put_self] using hnumber
        omega
      · exact hnone k' hne ((congrArg StubState.number (put_other s _ hk)).symm.trans hnumber)

omit [DecidableEq Call] in
theorem Inv.erase (h : Inv services stub s) (id : Int) :
    Inv services stub { s with outstandings := Function.update s.outstandings id none } where
  calls := h.calls
  outcomes := h.outcomes
  numbers := h.numbers
  keys id' key hkey := by
    by_cases hid : id' = id
    · subst hid
      simp at hkey
    · exact h.keys id' key ((Function.update_of_ne hid ..).symm.trans hkey)

/-- A reply finds its own call or none. -/
theorem Inv.doClientRpc {reply : RpcMessage} (h : Inv services stub s) (hreply : (s.calls k).inFlight = .reply reply) :
    Inv services stub ((s.put k { s.calls k with inFlight := .nothing }).doClientRpc stub reply) := by
  have hnot := (h.calls k).not_settled (by simp [hreply])
  have hjourney := (h.calls k).journey
  rw [hreply] at hjourney
  obtain ⟨hnumber, hreplied, -⟩ := hjourney.reply_spec
  have harrived := (h.calls k).arrive hreply
  have hput := h.put harrived rfl (harrived.outcome fun hzero => hnot (.inr hzero))
  rw [RpcExchange.doClientRpc]
  cases hfind : s.outstandings reply.id with
  | none => simpa only [RpcExchange.put, hfind] using hput
  | some key =>
      obtain rfl : k = key := by
        by_contra hne
        exact (h.keys reply.id key hfind).2 k hne hnumber
      have hcall := harrived.respond rfl hreplied
      have hresponded := hput.put (k := k) hcall (by rw [put_self]; rfl)
        (hcall.outcome fun hzero => hnot (.inr (respond_stage (r := stub k) reply hzero (by simp))))
      simpa only [RpcExchange.put, hfind, Function.update_self] using hresponded.erase reply.id

theorem Inv.resume (h : Inv services stub s) (hstage : (s.calls k).stage = .doneRun)
    (hanswerable : s.connected = true → Answerable services (stub k) (s.calls k)) :
    Inv services stub (s.put k { s.calls k with stage := .ended (if s.connected then 0 else -1) }) := by
  cases hconnected : s.connected with
  | false => exact h.put (h.calls k).fail rfl ((h.calls k).fail.outcome (by simp))
  | true =>
      have hcomplete := (h.calls k).complete hstage
      refine h.put hcomplete rfl ((outcome_iff_answerable hcomplete rfl).mpr ?_)
      obtain ⟨hregistered, hrequest, hresponse⟩ := hanswerable hconnected
      exact ⟨hregistered, hrequest, hresponse⟩

omit [DecidableEq Call] in
theorem start_inv : Inv services stub ({} : RpcExchange B Call) :=
  ⟨fun _ => .fresh, fun _ => ⟨nofun, nofun⟩, nofun, nofun⟩

/-- A step keeps what holds of every run when the call that it resumes is answerable. -/
theorem step_inv (h : Inv services stub s) (hguard : ResumesAnswerable services stub s e)
    (hstep : Step services stub s e t) : Inv services stub t := by
  cases hstep with
  | notConnected k hstage hconnected => exact h.put (h.calls k).fail rfl ((h.calls k).fail.outcome (by simp))
  | callMethod k elsewhere hstage hconnected => exact h.callMethod hstage elsewhere
  | serve k message hrequest =>
      obtain ⟨hcall, hnumber, hsame⟩ := (h.calls k).serve hrequest
      refine h.put hcall hnumber (hcall.outcome fun hzero => ?_)
      exact (h.calls k).not_settled (by simp [hrequest]) (.inr (hsame.symm.trans hzero))
  | produce k method id request response connected hrunning htype =>
      have hcall := (h.calls k).produce hrunning htype connected
      refine h.put hcall rfl (hcall.outcome fun hzero => ?_)
      exact (h.calls k).not_settled (by simp [hrunning]) (.inr hzero)
  | respond k reply hreply => exact h.doClientRpc hreply
  | resume k hstage => exact h.resume hstage hguard
  | timeout k hstage => exact h.put (h.calls k).fail rfl ((h.calls k).fail.outcome (by simp))
  | connection connected => exact ⟨h.calls, h.outcomes, h.numbers, h.keys⟩
  | callsElsewhere n =>
      have hn : s.id ≤ s.id + n := Int.le_add_of_nonneg_right (Int.natCast_nonneg n)
      refine ⟨h.calls, h.outcomes, fun k id hid => ?_, fun id k hkey => ⟨?_, (h.keys id k hkey).2⟩⟩
      · exact Int.le_trans (h.numbers k id hid) hn
      · exact Int.le_trans (h.keys id k hkey).1 hn

theorem step_guarded (h : Inv services stub s) (hstep : Step services stub s e t) (ht : EndToEnd stub t) :
    ResumesAnswerable services stub s e := by
  cases hstep with
  | resume k hstage =>
      intro hconnected
      have houtcome := ht k
      rw [put_self, if_pos hconnected] at houtcome
      obtain ⟨hregistered, hrequest, hresponse⟩ :=
        (outcome_iff_answerable ((h.calls k).complete hstage) rfl).mp houtcome
      exact ⟨hregistered, hrequest, hresponse⟩
  | notConnected | callMethod | serve | produce | respond => trivial
  | timeout | connection | callsElsewhere => trivial

end

end RpcExchange

end Libcold
