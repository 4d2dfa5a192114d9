import HttpFraming.Pairing

/-!
# Both ends agree on which responses have no body

The two ends of a connection pair requests and responses each for itself, while requests and
responses are under way between them for any length of time. What keeps them together is one
equation between queues, `Conversation.InStep.queue`. It is preserved by each event, in
whatever order the events come: see `Conversation.InStep.step`.
-/

namespace HttpFraming

/-! ## Conversations -/

/-- A response under way to the client: what the server planned for it, and the method of
the request that the server paired it with. -/
structure Underway where
  plan : ResponsePlan
  method? : Option Method

namespace Underway

def status (response : Underway) : Status :=
  response.plan.head.status

/-- The method that the client has to take off its queue for this response. -/
def owed? (response : Underway) : Option Method :=
  if response.status.isInterim then none else response.method?

end Underway

def ServerPairing.underway (pairing : ServerPairing) (response : Response) : Underway :=
  ⟨(pairing.responseHead response).1, (pairing.pending.answer response.status).1⟩

/-- Both ends of a connection and what is under way between them, oldest first. `heard` holds
the responses that the client has read, with its answers to whether they have no body. -/
structure Conversation where
  client : ClientPairing := {}
  server : ServerPairing := {}
  requests : List Method := []
  responses : List Underway := []
  heard : List (Underway × Bool) := []

namespace Conversation

/-- The events at the two ends. A response that is final answers a request; interim ones may
be written at any time. -/
inductive Step (c : Conversation) : Conversation → Prop
  | send (method : Method) :
      Step c { c with
        client := c.client.requestHead method
        requests := c.requests ++ [method] }
  | receive (method : Method) (more : List Method) (hnext : c.requests = method :: more) :
      Step c { c with
        server := c.server.requestHead method
        requests := more }
  | respond (response : Response)
      (hpending : response.status.isInterim = false → c.server.pending.methods ≠ []) :
      Step c { c with
        server := (c.server.responseHead response).2
        responses := c.responses ++ [c.server.underway response] }
  | read (response : Underway) (more : List Underway) (hnext : c.responses = response :: more) :
      Step c { c with
        client := (c.client.responseHead response.status).2
        responses := more
        heard := c.heard ++ [(response, (c.client.responseHead response.status).1)] }

/-- The conversations that come about on a fresh connection, up to the first response that
opens a tunnel for the client. -/
inductive Run (settings : ClientSettings) : Conversation → Prop
  | start : Run settings { client := { settings } }
  | step {c next : Conversation} (hrun : Run settings c) (hopen : c.client.tunnel = false)
      (hstep : c.Step next) : Run settings next

/-- The methods of the final responses under way, then those that the server has yet to
answer, then those that it has yet to read. -/
def expected (c : Conversation) : List Method :=
  c.responses.filterMap Underway.owed? ++ c.server.pending.methods ++ c.requests

structure InStep (c : Conversation) : Prop where
  queue : c.client.tunnel = false → c.client.pending.methods = c.expected
  planned : ∀ response ∈ c.responses, response.plan.forced? =
    if response.status.isBodilessFor response.method? then some .empty else none
  paired : ∀ response ∈ c.responses, response.status.isInterim = false →
    response.method?.isSome = true
  agreed : ∀ response empty, (response, empty) ∈ c.heard →
    (empty = true ↔ response.plan.forced? = some .empty)

end Conversation

/-! ## One event -/

theorem ServerPairing.underway_status (pairing : ServerPairing) (response : Response) :
    (pairing.underway response).status = response.status := by
  show (if _ then _ else _ : Response).status = response.status
  split
  · exact response.sanitize_status
  · exact response.sanitize_status

/-- An interim response never has a body, whatever it is paired with. -/
theorem Status.isBodilessFor_of_isInterim {status : Status} (h : status.isInterim = true)
    (method? : Option Method) : status.isBodilessFor method? = true := by
  have hinformational : status.isInformational = true := by
    simp only [isInterim, Bool.and_eq_true] at h
    exact h.1
  simp [isBodilessFor, isBodiless, hinformational]

namespace Pending

theorem answer_of_interim {status : Status} (h : status.isInterim = true) (pending : Pending) :
    pending.answer status = (pending.methods.head?, pending) := by
  simp [answer, h]

theorem answer_of_final {status : Status} (h : status.isInterim = false) {pending : Pending}
    {method : Method} {more : List Method} (hmethods : pending.methods = method :: more) :
    pending.answer status = (some method, ⟨more⟩) := by
  simp [answer, h, hmethods]

end Pending

theorem ClientPairing.responseHead_pending (pairing : ClientPairing) {status : Status}
    (h : (pairing.responseHead status).2.tunnel = false) :
    (pairing.responseHead status).2.pending = (pairing.pending.answer status).2 := by
  simp only [responseHead, Bool.or_eq_false_iff] at h ⊢
  simp [h.2]

namespace Conversation.InStep

variable {c : Conversation}

theorem send (h : c.InStep) (hopen : c.client.tunnel = false) (method : Method) :
    InStep { c with
      client := c.client.requestHead method
      requests := c.requests ++ [method] } where
  queue _ := by
    have hqueue := h.queue hopen
    simp [ClientPairing.requestHead, hopen, Pending.push, hqueue, expected]
  planned := h.planned
  paired := h.paired
  agreed := h.agreed

theorem receive (h : c.InStep) {method : Method} {more : List Method}
    (hnext : c.requests = method :: more) :
    InStep { c with
      server := c.server.requestHead method
      requests := more } where
  queue hopen := by
    have hqueue := h.queue hopen
    simp [hqueue, expected, hnext, ServerPairing.requestHead, Pending.push]
  planned := h.planned
  paired := h.paired
  agreed := h.agreed

theorem owed_append (server : ServerPairing) (response : Response)
    (hpending : response.status.isInterim = false → server.pending.methods ≠ []) :
    (server.underway response).owed?.toList ++ (server.responseHead response).2.pending.methods =
      server.pending.methods := by
  show (if (server.underway response).status.isInterim then none
    else (server.pending.answer response.status).1).toList ++
      (server.pending.answer response.status).2.methods = server.pending.methods
  rw [server.underway_status]
  cases hinterim : response.status.isInterim with
  | true =>
      rw [Pending.answer_of_interim hinterim]
      rfl
  | false =>
      obtain ⟨method, more, hmethods⟩ := List.exists_cons_of_ne_nil (hpending hinterim)
      rw [Pending.answer_of_final hinterim hmethods, hmethods]
      rfl

theorem respond (h : c.InStep) (response : Response)
    (hpending : response.status.isInterim = false → c.server.pending.methods ≠ []) :
    InStep { c with
      server := (c.server.responseHead response).2
      responses := c.responses ++ [c.server.underway response] } where
  queue hopen := by
    have hqueue := h.queue hopen
    have howed := owed_append c.server response hpending
    have hsingle : [c.server.underway response].filterMap Underway.owed? =
        (c.server.underway response).owed?.toList := by
      cases hmethod : (c.server.underway response).owed? <;> simp [hmethod]
    rw [hqueue, expected, expected, ← howed]
    simp only [List.filterMap_append, hsingle, List.append_assoc]
  planned := by
    intro other hmem
    rcases List.mem_append.mp hmem with hmem | hmem
    · exact h.planned other hmem
    · rw [List.mem_singleton] at hmem
      subst hmem
      rw [c.server.underway_status]
      rfl
  paired := by
    intro other hmem hfinal
    rcases List.mem_append.mp hmem with hmem | hmem
    · exact h.paired other hmem hfinal
    · rw [List.mem_singleton] at hmem
      subst hmem
      rw [c.server.underway_status] at hfinal
      obtain ⟨method, more, hmethods⟩ := List.exists_cons_of_ne_nil (hpending hfinal)
      show (c.server.pending.answer response.status).1.isSome = true
      rw [Pending.answer_of_final hfinal hmethods]
      rfl
  agreed := h.agreed

/-- The client judges a final response by the method with which the server paired it. -/
theorem judged (h : c.InStep) (hopen : c.client.tunnel = false) {response : Underway}
    {more : List Underway} (hnext : c.responses = response :: more) :
    (c.client.responseHead response.status).1 = response.status.isBodilessFor response.method? := by
  show response.status.isBodilessFor (c.client.pending.answer response.status).1 = _
  cases hinterim : response.status.isInterim with
  | true =>
      rw [Status.isBodilessFor_of_isInterim hinterim, Status.isBodilessFor_of_isInterim hinterim]
  | false =>
      have hpaired := h.paired response (by simp [hnext]) hinterim
      obtain ⟨method, hmethod⟩ := Option.isSome_iff_exists.mp hpaired
      have howed : response.owed? = some method := by simp [Underway.owed?, hinterim, hmethod]
      have hqueue := h.queue hopen
      rw [expected, hnext, List.filterMap_cons_some howed] at hqueue
      rw [Pending.answer_of_final hinterim hqueue, hmethod]

theorem read (h : c.InStep) (hopen : c.client.tunnel = false) {response : Underway}
    {more : List Underway} (hnext : c.responses = response :: more) :
    InStep { c with
      client := (c.client.responseHead response.status).2
      responses := more
      heard := c.heard ++ [(response, (c.client.responseHead response.status).1)] } where
  queue hstill := by
    have hqueue := h.queue hopen
    rw [expected, hnext] at hqueue
    rw [c.client.responseHead_pending hstill]
    cases hinterim : response.status.isInterim with
    | true =>
        have howed : response.owed? = none := by simp [Underway.owed?, hinterim]
        rw [List.filterMap_cons_none howed] at hqueue
        rw [Pending.answer_of_interim hinterim, hqueue]
        rfl
    | false =>
        have hpaired := h.paired response (by simp [hnext]) hinterim
        obtain ⟨method, hmethod⟩ := Option.isSome_iff_exists.mp hpaired
        have howed : response.owed? = some method := by simp [Underway.owed?, hinterim, hmethod]
        rw [List.filterMap_cons_some howed] at hqueue
        rw [Pending.answer_of_final hinterim hqueue]
        rfl
  planned other hmem := h.planned other (by simp [hnext, show other ∈ more from hmem])
  paired other hmem := h.paired other (by simp [hnext, show other ∈ more from hmem])
  agreed := by
    intro other empty hmem
    rcases List.mem_append.mp hmem with hmem | hmem
    · exact h.agreed other empty hmem
    · rw [List.mem_singleton, Prod.mk.injEq] at hmem
      obtain ⟨rfl, rfl⟩ := hmem
      rw [h.judged hopen hnext, h.planned other (by simp [hnext])]
      cases other.status.isBodilessFor other.method? <;> simp

/-- Every event keeps the ends in step, for as long as no tunnel is open. -/
theorem step {next : Conversation} (h : c.InStep) (hopen : c.client.tunnel = false)
    (hstep : c.Step next) : next.InStep := by
  cases hstep with
  | send method => exact h.send hopen method
  | receive method more hnext => exact h.receive hnext
  | respond response hpending => exact h.respond response hpending
  | read response more hnext => exact h.read hopen hnext

end Conversation.InStep

/-! ## Whole runs -/

namespace Conversation

variable {settings : ClientSettings} {c : Conversation}

theorem Run.inStep (hrun : Run settings c) : c.InStep := by
  induction hrun with
  | start =>
      refine ⟨fun _ => rfl, ?_, ?_, ?_⟩
      · simp
      · simp
      · simp
  | step _ hopen hstep ih => exact ih.step hopen hstep

/-- Whatever the order of events, up to the first response that opens a tunnel for the
client: the client has answered that a response has no body exactly where the server has
forced that on it, and as long as no tunnel is open it will answer the same about the next
one; and its queue holds the methods of the final responses under way, then the queue of the
server, then the requests under way. -/
theorem Run.agreement (hrun : Run settings c) :
    (∀ response empty, (response, empty) ∈ c.heard →
      (empty = true ↔ response.plan.forced? = some .empty)) ∧
    (c.client.tunnel = false →
      (∀ response more, c.responses = response :: more →
        ((c.client.responseHead response.status).1 = true ↔
          response.plan.forced? = some .empty)) ∧
      c.client.pending.methods =
        c.responses.filterMap Underway.owed? ++ c.server.pending.methods ++ c.requests) := by
  have h := hrun.inStep
  refine ⟨h.agreed, fun hopen => ⟨fun response more hnext => ?_, h.queue hopen⟩⟩
  rw [h.judged hopen hnext, h.planned response (by simp [hnext])]
  cases response.status.isBodilessFor response.method? <;> simp

/-- A request without a response body, one more behind it, and an interim response before the
final one. The second request is still under way at the end. -/
theorem Run.agreement_of_head_behind_interim :
    ∃ c, Run {} c ∧ c.heard.map Prod.snd = [true, true] ∧
      (∀ response empty, (response, empty) ∈ c.heard →
        (empty = true ↔ response.plan.forced? = some .empty)) ∧
      c.client.pending.methods = [.get] ∧ c.server.pending.methods = [] ∧ c.requests = [.get] := by
  have hsent : Run {} _ := .step (.step .start rfl (.send .head)) rfl (.send .get)
  have hreceived : Run {} _ := .step hsent rfl (.receive .head [.get] rfl)
  have hinterim : Run {} _ := .step hreceived rfl (.respond { line := .proceed } (by decide))
  have hfinal : Run {} _ := .step hinterim rfl (.respond { line := .ok } (by decide))
  have hread : Run {} _ := .step hfinal rfl (.read _ _ rfl)
  have hboth : Run {} _ := .step hread rfl (.read _ _ rfl)
  exact ⟨_, hboth, rfl, hboth.agreement.1, (hboth.agreement.2 rfl).2, rfl, rfl⟩

end Conversation

end HttpFraming
