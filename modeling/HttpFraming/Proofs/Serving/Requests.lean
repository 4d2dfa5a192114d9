import HttpFraming.Proofs.Serving.Answers
import HttpFraming.Proofs.Serving.Dealing

/-!
# A session serves its requests in turns

A request that is kept is collected or refused, and the session stands ready for the next one
behind it: `Session.deals_request`. So a session that is run on the bytes of any number of
requests takes the turns that `turns` lists, however the bytes are read: `Session.run_turns`.
-/

namespace HttpFraming

open Bytes

/-! ## The parts of one message -/

namespace Message

variable {k : Kind} {messages more : List (Message k)}

theorem of_join_cons {message : Message k} (hchunk : ∀ data, message ≠ .payload (.chunk data))
    (hjoin : join messages = message :: more) :
    ∃ rest, messages = message :: rest ∧ join rest = more := by
  cases messages with
  | nil =>
      rw [join_nil] at hjoin
      cases hjoin
  | cons first rest =>
      rw [join_cons] at hjoin
      unfold joinOne at hjoin
      split at hjoin
      · exact absurd (List.cons.inj hjoin).1.symm (hchunk _)
      · obtain ⟨rfl, rfl⟩ := List.cons.inj hjoin
        exact ⟨rest, rfl, rfl⟩

theorem of_join_chunk {last : Message k} (hlast : ∀ data, last ≠ .payload (.chunk data))
    {data : Bytes} (hjoin : join messages = .payload (.chunk data) :: last :: more) :
    ∃ (pieces : List Bytes) (rest : List (Message k)),
      messages = pieces.map (fun data => .payload (.chunk data)) ++ last :: rest ∧
        pieces.flatten = data ∧ join rest = more := by
  induction messages generalizing data with
  | nil =>
      rw [join_nil] at hjoin
      cases hjoin
  | cons first tail ih =>
      rw [join_cons] at hjoin
      unfold joinOne at hjoin
      split at hjoin
      · rename_i front next joined htail
        simp only [List.cons.injEq, payload.injEq, Item.chunk.injEq] at hjoin
        obtain ⟨rfl, rfl⟩ := hjoin
        obtain ⟨pieces, rest, rfl, rfl, hrest⟩ := ih htail
        exact ⟨front :: pieces, rest, rfl, rfl, hrest⟩
      · simp only [List.cons.injEq] at hjoin
        obtain ⟨rfl, htail⟩ := hjoin
        obtain ⟨rest, rfl, hrest⟩ := of_join_cons hlast htail
        exact ⟨[data], rest, rfl, by simp, hrest⟩

end Message

/-- The parts that a decoder hands out for a message, up to the cuts between chunks. -/
theorem Parts.of_join_received {k : Kind} {parts : Parts k} {messages more : List (Message k)}
    (hjoin : Message.join messages = parts.received ++ more) :
    ∃ (pieces : List Bytes) (rest : List (Message k)),
      messages = .header parts.head :: Message.payloads pieces []
          (if parts.head.isChunked then parts.trailers else ∅) ++ rest ∧
        pieces.flatten = parts.body ∧ Message.join rest = more := by
  have hlast : ∀ (trailers : Fields) (data : Bytes),
      (.payload (.last [] trailers) : Message k) ≠ .payload (.chunk data) := by
    intro trailers data h
    cases h
  obtain ⟨tail, rfl, htail⟩ := Message.of_join_cons (fun _ h => by cases h) hjoin
  by_cases hbody : parts.body = []
  · simp only [hbody, Message.chunkOf, List.isEmpty_nil, if_true, List.nil_append] at htail
    obtain ⟨rest, rfl, hrest⟩ := Message.of_join_cons (hlast _) htail
    exact ⟨[], rest, rfl, hbody.symm, hrest⟩
  · have hempty : parts.body.isEmpty = false := by simpa using hbody
    simp only [hempty, Message.chunkOf, Bool.false_eq_true, if_false] at htail
    obtain ⟨pieces, rest, rfl, hpieces, hrest⟩ := Message.of_join_chunk (hlast _) htail
    refine ⟨pieces, rest, ?_, hpieces, hrest⟩
    simp [Message.payloads]

theorem Message.eq_nil_of_join {k : Kind} {messages : List (Message k)}
    (hjoin : Message.join messages = []) : messages = [] := by
  cases messages with
  | nil => rfl
  | cons first rest =>
      rw [Message.join_cons] at hjoin
      unfold Message.joinOne at hjoin
      split at hjoin <;> cases hjoin

namespace Session

variable {η : Type} {handle : Handler η} {session : Session η}

/-! ## Responding to what was collected -/

/-- The session responds to these things, one after the other, and goes on behind each. -/
inductive Responds (handle : Handler η) :
    Session η → List (Collected .request) → Session η → Prop
  | nil (session : Session η) : Responds handle session [] session
  | cons {collected : Collected .request} {more : List (Collected .request)}
      {session middle after : Session η} (hrespond : respond handle collected session = .ok true middle)
      (hmore : Responds handle middle more after) : Responds handle session (collected :: more) after

theorem Responds.append {middle after : Session η} {first second : List (Collected .request)}
    (h : Responds handle session first middle) (h' : Responds handle middle second after) :
    Responds handle session (first ++ second) after := by
  induction h with
  | nil session => exact h'
  | cons hrespond _ ih => exact .cons hrespond (ih h')

theorem settle_withCollector
    {result : Except CollectError (Option (Collected .request))} {goes : Bool} {middle : Session η}
    (h : settle handle result session = .ok goes middle) (collector : Collector .request Unit) :
    settle handle result { session with collector } = .ok goes { middle with collector } := by
  have hignores := ignoresInput_settle handle result
  have hinput := hignores.input_eq h
  have hmiddle : { middle with collector } =
      middle.withInput { session.input with collector } := by
    rw [← hinput]
    rfl
  rw [hmiddle]
  exact (hignores session goes middle h).2 { session.input with collector }

theorem Responds.withCollector {after : Session η} {out : List (Collected .request)}
    (h : Responds handle session out after) (collector : Collector .request Unit) :
    Responds handle { session with collector } out { after with collector } := by
  induction h with
  | nil session => exact .nil _
  | @cons collected _ _ _ _ hrespond _ ih =>
      have hsettle : settle handle (.ok (some collected)) _ = .ok true _ := hrespond
      exact .cons (settle_withCollector hsettle collector) ih

theorem deal_of_take {message : Message .request} {next : Collector .request Unit}
    {result : Except CollectError (Option (Collected .request))} {middle : Session η}
    (htake : session.collector.take (selectAll .request) message = (result, next))
    (hsettle : settle handle result
      { session with server := session.server.noteMessage (some message) } = .ok true middle) :
    deal handle message session = .ok true { middle with collector := next } := by
  rw [deal_eq htake]
  exact settle_withCollector hsettle next

theorem Deals.of_items {collector next : Collector .request Unit} {messages : List (Message .request)}
    {out : List (Collected .request)} (h : Collects (selectAll .request) collector messages out next)
    (hitems : ∀ m ∈ messages, ∃ item, m = .payload item) {after : Session η}
    (hcollector : session.collector = collector) (hresponds : Responds handle session out after) :
    Deals handle session messages { after with collector := next } := by
  induction h generalizing session after with
  | nil collector =>
      cases hresponds
      subst hcollector
      exact .nil _
  | @quiet _ middle _ _ _ _ htake _ ih =>
      rw [List.forall_mem_cons] at hitems
      obtain ⟨⟨item, rfl⟩, hmore⟩ := hitems
      rw [← hcollector] at htake
      have hlater := ih hmore rfl (hresponds.withCollector middle)
      exact .cons (deal_of_take htake rfl) hlater
  | @handsOut _ middle _ _ _ _ _ htake _ ih =>
      rw [List.forall_mem_cons] at hitems
      obtain ⟨⟨item, rfl⟩, hmore⟩ := hitems
      rw [← hcollector] at htake
      cases hresponds with
      | cons hrespond hlater =>
          have hlater := ih hmore rfl (hlater.withCollector middle)
          exact .cons (deal_of_take htake hrespond) hlater

/-- A whole message is dealt with so, after its head was noted. -/
theorem Deals.of_message {next : Collector .request Unit} {message : Message .request}
    {items : List (Message .request)} {out : List (Collected .request)}
    (h : Collects (selectAll .request) session.collector (message :: items) out next)
    (hitems : ∀ m ∈ items, ∃ item, m = .payload item) {after : Session η}
    (hresponds : Responds handle
      { session with server := session.server.noteMessage (some message) } out after) :
    Deals handle session (message :: items) { after with collector := next } := by
  cases h with
  | @quiet _ middle _ _ _ _ htake hmore =>
      have hlater := of_items hmore hitems rfl (hresponds.withCollector middle)
      exact .cons (deal_of_take htake rfl) hlater
  | @handsOut _ middle _ _ _ _ _ htake hmore =>
      cases hresponds with
      | cons hrespond hlater =>
          have hlater := of_items hmore hitems rfl (hlater.withCollector middle)
          exact .cons (deal_of_take htake hrespond) hlater

end Session

/-- A request of version 1.1 that a reader with these limits gives back, on a connection that is
kept. -/
structure Parts.IsKept (limits : Limits) (parts : Parts .request) : Prop where
  readable : parts.IsReadable limits
  version : parts.head.version = .http11
  keepAlive : parts.head.keepAlive = true

theorem Parts.announced {k : Kind} {limits : Limits} {parts : Parts k}
    (h : parts.IsReadable limits)
    (hencoded : (({} : Encoder).encodeAll parts.messages).error? = none) :
    ∀ n, parts.head.contentLength? = some n → n = parts.body.length := by
  intro n hn
  obtain ⟨written, hreadable⟩ := h.head
  obtain ⟨framing, hannounces⟩ := h.framing
  have hannounced := hannounces.announcedFraming
  cases hannounces with
  | length value m hvalues hread hword hcoding =>
      rw [encodeAll_messages hreadable.write_eq, hannounced] at hencoded
      rw [Head.contentLength?_of_digits hvalues hread hword] at hn
      have hm : m = parts.body.length :=
        Encoder.length_of_encodeAll parts.chunks parts.tail parts.trailers hencoded
      rw [← hm]
      exact (Option.some.inj hn).symm
  | chunked _ hlength =>
      rw [Head.contentLength?_of_not_contains hlength] at hn
      cases hn
  | empty _ _ hlength =>
      rw [Head.contentLength?_of_not_contains hlength] at hn
      cases hn

theorem Parts.announced_all {k : Kind} {limits : Limits} {all : List (Parts k)}
    (hall : ∀ parts ∈ all, parts.IsReadable limits)
    (hencoded : (({} : Encoder).encodeAll (all.flatMap messages)).error? = none) :
    ∀ parts ∈ all, ∀ n, parts.head.contentLength? = some n → n = parts.body.length := by
  induction all with
  | nil => simp
  | cons parts all ih =>
      rw [List.forall_mem_cons] at hall
      obtain ⟨hfirst, hrest, _⟩ := encoded_cons hall.1 hencoded
      exact List.forall_mem_cons.mpr ⟨announced hall.1 hfirst, ih hall.2 hrest⟩

namespace Session

variable {η : Type} {handle : Handler η} {session : Session η} {settings : CollectSettings}
  {limits climits : Limits}

/-- The session stands between requests, and whatever it wrote was taken. -/
structure IsReady (settings : CollectSettings) (session : Session η) : Prop where
  upgraded : session.server.upgraded = false
  encoder : session.server.encoder = {}
  pairing : session.server.pairing = {}
  collector : session.collector = ⟨settings, (), .idle⟩
  room : session.outlet.room? = none
  outbox : session.outbox = []

theorem responds_asking {request : Request} (hawaits : session.server.Awaits request.method)
    (hroom : session.outlet.room? = none) (houtbox : session.outbox = [])
    (hproper : ∀ turn ∈ asking settings request, turn.IsProper climits) :
    ∃ after, Responds handle session
        (if settings.asksFor request then [.reply .proceed] else []) after ∧
      session.Turned session.server session.handler
        ((asking settings request).flatMap Turn.calls)
        ((asking settings request).flatMap (·.encoded.output)) after := by
  unfold asking at hproper ⊢
  by_cases hasks : settings.asksFor request = true
  · rw [if_pos hasks] at hproper ⊢
    have hfits : Reply.proceed.head.Fits climits := hproper _ (List.mem_singleton.mpr rfl)
    have hplain := Reply.proceed_isPlain
    have hsound := hplain.isSound hfits request.method
    obtain ⟨after, hrespond, hturned⟩ := @respond_reply η handle session _ hawaits hroom _
      hplain.close hplain.sanitized hsound.tunnel _ hsound.encoded
    refine ⟨after, .cons hrespond (.nil after), ?_⟩
    simpa [hasks, Turn.calls, Server.answered,
      show Reply.proceed.head.status.isInterim = true from rfl] using hturned
  · rw [if_neg hasks]
    exact ⟨session, .nil session, by simpa [hasks] using Turned.refl houtbox⟩

theorem responds_refusal {method : Method} (hawaits : session.server.Awaits method)
    (hroom : session.outlet.room? = none) {reply : Reply} (hplain : reply.IsPlain)
    (hfinal : reply.head.status.isInterim = false) (hfits : reply.head.Fits climits) :
    ∃ after, Responds handle session [.reply reply] after ∧
      session.Turned { session.server with pairing := {} } session.handler []
        (Turn.reply method reply).encoded.output after := by
  have hsound := hplain.isSound hfits method
  obtain ⟨after, hrespond, hturned⟩ := @respond_reply η handle session _ hawaits hroom _
    hplain.close hplain.sanitized hsound.tunnel _ hsound.encoded
  refine ⟨after, .cons hrespond (.nil after), ?_⟩
  rwa [Server.answered, hfinal] at hturned

theorem responds_answer {message : WholeMessage .request}
    (hawaits : session.server.Awaits message.head.method) (hroom : session.outlet.room? = none)
    (hfailure : message.failure? = none) (hkeep : message.head.keepAlive = true)
    (hversion : message.head.version = .http11) {answer : Answer} {handler : η}
    (hanswer : handle message.head message.body session.handler = (answer, handler))
    (hproper : answer.IsProper climits message.head.method) :
    ∃ after, Responds handle session [.message message] after ∧
      session.Turned { session.server with pairing := {} } handler [(message.head, message.body)]
        (Turn.answered message.head message.body answer).encoded.output after := by
  have hsound := hproper.isSound message.body
  obtain ⟨after, hrespond, hturned⟩ := @respond_message η handle session message hawaits hroom
    hfailure hkeep hversion _ _ hanswer hproper.errorless hproper.tunnel _ hsound.encoded
  have hfinal : answer.status.isInterim = false :=
    (congrArg Status.isInterim (Head.sanitize_status answer.response)).symm.trans hproper.isFinal
  refine ⟨after, .cons hrespond (.nil after), ?_⟩
  rwa [Server.answered, hfinal] at hturned

/-- What was collected of a request is responded to in the turns for it. -/
theorem responds_outcome {parts : Parts .request} (hkept : parts.IsKept limits)
    (hawaits : session.server.Awaits parts.head.method) (hroom : session.outlet.room? = none)
    (houtbox : session.outbox = [])
    (hproper : ∀ turn ∈ (turnsFor settings handle parts session.handler).1, turn.IsProper climits)
    {chunks : List Bytes} (hchunks : chunks.flatten = parts.body) (trailers : Fields) :
    ∃ after, Responds handle session
        (settings.outcome parts.head chunks parts.body.length trailers) after ∧
      session.Turned { session.server with pairing := {} }
        (turnsFor settings handle parts session.handler).2
        ((turnsFor settings handle parts session.handler).1.flatMap Turn.calls)
        ((turnsFor settings handle parts session.handler).1.flatMap (·.encoded.output)) after := by
  rw [CollectSettings.outcome]
  cases hrefusal : settings.refusal? parts.head parts.body.length with
  | some reply =>
      rw [turnsFor_refused hrefusal] at hproper ⊢
      rw [List.forall_mem_append, List.forall_mem_singleton] at hproper
      obtain ⟨middle, hasked, hfirst⟩ := @responds_asking η handle session settings climits
        parts.head hawaits hroom houtbox hproper.1
      obtain ⟨hplain, hfinal⟩ := CollectSettings.refusal?_isPlain hrefusal
      rw [← hfirst.server] at hawaits
      obtain ⟨after, hrefused, hlast⟩ := @responds_refusal η handle middle climits _ hawaits
        (hfirst.outlet ▸ hroom) reply hplain hfinal hproper.2
      refine ⟨after, hasked.append hrefused, ?_⟩
      rw [hfirst.server, hfirst.handler] at hlast
      simpa [Turn.calls] using hfirst.trans hlast
  | none =>
      obtain ⟨hline, hversion⟩ :=
        CollectSettings.collectedHead_line parts.head parts.body.length
      have hkeep := (CollectSettings.keepAlive_collectedHead parts.head parts.body.length).trans
        hkept.keepAlive
      generalize hrequest : CollectSettings.collectedHead parts.head parts.body.length = request
        at hline hversion hkeep ⊢
      have hmethod : request.method = parts.head.method := congrArg RequestLine.method hline
      rcases hanswer : handle request parts.body session.handler with ⟨answer, handler⟩
      rw [turnsFor_answered hrefusal hrequest hanswer] at hproper ⊢
      rw [List.forall_mem_append, List.forall_mem_singleton] at hproper
      obtain ⟨middle, hasked, hfirst⟩ := @responds_asking η handle session settings climits
        parts.head hawaits hroom houtbox hproper.1
      rw [← hfirst.server, ← hmethod] at hawaits
      rw [← hfirst.handler, ← hchunks] at hanswer
      obtain ⟨after, hanswered, hlast⟩ := @responds_answer η handle middle climits
        ⟨request, chunks, parts.body.length, trailers, none⟩ hawaits (hfirst.outlet ▸ hroom) rfl
        hkeep (hversion.trans hkept.version) answer handler hanswer hproper.2
      refine ⟨after, hasked.append hanswered, ?_⟩
      rw [hfirst.server] at hlast
      have hturned := hfirst.trans hlast
      simpa [Turn.calls, WholeMessage.body, hchunks] using hturned

/-- A whole request is dealt with in the turns for it, and the session stands ready again. -/
theorem deals_request {parts : Parts .request} (hclose : settings.closeOnRefusal = false)
    (hkept : parts.IsKept limits)
    (hannounced : ∀ n, parts.head.contentLength? = some n → n = parts.body.length)
    (hproper : ∀ turn ∈ (turnsFor settings handle parts session.handler).1, turn.IsProper climits)
    {pieces : List Bytes} (hpieces : pieces.flatten = parts.body) (trailers : Fields)
    (hready : session.IsReady settings) :
    ∃ after, Deals handle session (.header parts.head :: Message.payloads pieces [] trailers) after ∧
      after.IsReady settings ∧
      session.Turned session.server (turnsFor settings handle parts session.handler).2
        ((turnsFor settings handle parts session.handler).1.flatMap Turn.calls)
        ((turnsFor settings handle parts session.handler).1.flatMap (·.encoded.output)) after := by
  rw [← hpieces] at hannounced
  obtain ⟨chunks, hchunks, hcollects⟩ := Collects.request hclose hkept.keepAlive hannounced trailers
  rw [hpieces] at hchunks hcollects
  rw [← hready.collector] at hcollects
  let noted := session.server.noteMessage (some (.header parts.head))
  have hawaits : noted.Awaits parts.head.method := by
    refine ⟨hready.upgraded, hready.encoder, ?_⟩
    show session.server.pairing.requestHead parts.head.method = _
    rw [hready.pairing]
    rfl
  have hserver : ({ noted with pairing := {} } : Server) = session.server := by
    rw [← hready.pairing]
    rfl
  obtain ⟨after, hresponds, hturned⟩ := @responds_outcome η handle { session with server := noted }
    settings limits climits parts hkept hawaits hready.room hready.outbox hproper chunks hchunks
    trailers
  have hitems : ∀ m ∈ (Message.payloads pieces [] trailers : List (Message .request)),
      ∃ item, m = .payload item := by
    intro m hm
    rcases List.mem_append.mp hm with hm | hm
    · obtain ⟨data, _, rfl⟩ := List.mem_map.mp hm
      exact ⟨_, rfl⟩
    · exact ⟨_, List.mem_singleton.mp hm⟩
  have hdeals := Deals.of_message hcollects hitems hresponds
  have hstands := hturned.server.trans hserver
  refine ⟨_, hdeals, ?_, hstands, hturned.handler, hturned.outlet, hturned.calls, hturned.written,
    hturned.outbox⟩
  refine ⟨?_, ?_, ?_, hready.collector, ?_, hturned.outbox⟩
  · exact (congrArg Server.upgraded hstands).trans hready.upgraded
  · exact (congrArg Server.encoder hstands).trans hready.encoder
  · exact (congrArg Server.pairing hstands).trans hready.pairing
  · exact (congrArg Outlet.room? hturned.outlet).trans hready.room

/-! ## All requests -/

/-- Requests that were written one behind the other, in whatever pieces a decoder hands them
out, are dealt with in their turns. -/
theorem deals_requests (hclose : settings.closeOnRefusal = false) {all : List (Parts .request)}
    (hkept : ∀ parts ∈ all, parts.IsKept limits)
    (hannounced : ∀ parts ∈ all, ∀ n, parts.head.contentLength? = some n → n = parts.body.length)
    (hproper : ∀ turn ∈ turns settings handle all session.handler, turn.IsProper climits)
    {messages : List (Message .request)}
    (hjoin : Message.join messages = all.flatMap Parts.received)
    (hready : session.IsReady settings) :
    ∃ after handler, Deals handle session messages after ∧
      session.Turned session.server handler
        ((turns settings handle all session.handler).flatMap Turn.calls)
        ((turns settings handle all session.handler).flatMap (·.encoded.output)) after := by
  induction all generalizing session messages with
  | nil =>
      rw [Message.eq_nil_of_join hjoin]
      exact ⟨session, session.handler, .nil session, .refl hready.outbox⟩
  | cons parts all ih =>
      rw [List.forall_mem_cons] at hkept hannounced
      rw [turns_cons, List.forall_mem_append] at hproper
      rw [List.flatMap_cons] at hjoin
      obtain ⟨pieces, rest, rfl, hpieces, hrest⟩ := Parts.of_join_received hjoin
      obtain ⟨middle, hdeals, hmiddle, hfirst⟩ := deals_request hclose hkept.1 hannounced.1
        hproper.1 hpieces _ hready
      have hlater := hproper.2
      rw [← hfirst.handler] at hlater
      obtain ⟨after, handler, hmore, hlast⟩ := ih hkept.2 hannounced.2 hlater hrest hmiddle
      rw [hfirst.server, hfirst.handler] at hlast
      refine ⟨after, handler, hdeals.append hmore, ?_⟩
      rw [turns_cons, List.flatMap_append, List.flatMap_append]
      exact hfirst.trans hlast

structure IsFresh (settings : CollectSettings) (limits : Limits) (session : Session η) : Prop where
  ready : session.IsReady settings
  decoder : session.server.decoder = ⟨limits, .head⟩
  inbox : session.inbox = []

/-- What a decoder hands out for the bytes of some requests, however they are cut. -/
theorem delivered_requests {all : List (Parts .request)}
    (hall : ∀ parts ∈ all, parts.IsReadable limits)
    (hencoded : (({} : Encoder).encodeAll (all.flatMap Parts.messages)).error? = none)
    {cuts : List Bytes}
    (hcuts : cuts.flatten = (({} : Encoder).encodeAll (all.flatMap Parts.messages)).output)
    (hfresh : session.IsFresh settings limits) :
    (session.delivered cuts).joined =
      ⟨all.flatMap Parts.received, none, (⟨limits, .head⟩, ()), []⟩ := by
  have htakes := (Parts.takes_all all hall hencoded).1
  rw [← hcuts] at htakes
  rw [delivered, hfresh.decoder, hfresh.inbox, ← Parts.join_received]
  exact htakes.deliver (Decoder.pull_nil _ false limits ()) (Decoder.pull_nil _ false limits ())

/-- A session that is run on the bytes of some requests, however they are read, takes the turns
for them: it ends in order, has asked the handler in these turns and has written them. -/
theorem run_turns (hclose : settings.closeOnRefusal = false) {all : List (Parts .request)}
    (hkept : ∀ parts ∈ all, parts.IsKept limits)
    (hencoded : (({} : Encoder).encodeAll (all.flatMap Parts.messages)).error? = none)
    (hproper : ∀ turn ∈ turns settings handle all session.handler, turn.IsProper climits)
    {reads : List Bytes}
    (hreads : reads.flatten = (({} : Encoder).encodeAll (all.flatMap Parts.messages)).output)
    (hfresh : session.IsFresh settings limits) :
    ∃ stop, run handle (reads.map .bytes) session = (.ok (), stop) ∧
      Event.calls stop.events = Event.calls session.events ++
        (turns settings handle all session.handler).flatMap Turn.calls ∧
      Event.output stop.events = Event.output session.events ++
        (turns settings handle all session.handler).flatMap (·.encoded.output) := by
  have hall : ∀ parts ∈ all, parts.IsReadable limits := fun parts hmem => (hkept parts hmem).readable
  have hdeals : ∀ cuts : List Bytes, cuts.flatten = reads.flatten → ∃ after handler,
      Deals handle session (session.delivered cuts).values after ∧
      session.Turned session.server handler
        ((turns settings handle all session.handler).flatMap Turn.calls)
        ((turns settings handle all session.handler).flatMap (·.encoded.output)) after := by
    intro cuts hcuts
    have hdelivered := delivered_requests hall hencoded (hcuts.trans hreads) hfresh
    exact deals_requests hclose hkept (Parts.announced_all hall hencoded) hproper
      (congrArg Drained.values hdelivered) hfresh.ready
  obtain ⟨stop, ⟨cuts, after, block, hcuts, hdealt, rfl⟩, hrun⟩ :=
    @run_deals η handle reads session hfresh.ready.upgraded fun cuts hcuts => by
      obtain ⟨after, _, hdealt, _⟩ := hdeals cuts hcuts
      exact ⟨after, hdealt⟩
  -- The parts that were dealt with came in certain pieces, and this is what came of them.
  obtain ⟨other, _, hother, hturned⟩ := hdeals cuts hcuts
  rw [hother.unique hdealt] at hturned
  have hdelivered := delivered_requests hall hencoded (hcuts.trans hreads) hfresh
  have hidle : (after.withStream (session.delivered cuts).state.1 (session.delivered cuts).rest
      block).server.decoder.phase = .head :=
    congrArg (fun drained => drained.state.1.phase) hdelivered
  have hupgraded : (after.withStream (session.delivered cuts).state.1 (session.delivered cuts).rest
      block).server.upgraded = false := hdealt.upgraded.trans hfresh.ready.upgraded
  obtain ⟨stop, hended, hevents, _⟩ :=
    @run_nil η handle _ hupgraded hidle (congrArg Drained.rest hdelivered)
  refine ⟨stop, hrun.trans hended, ?_, ?_⟩
  · rw [hevents]
    exact hturned.calls
  · have hwritten := hturned.written
    rw [written, written, hturned.outbox, hfresh.ready.outbox, List.append_nil, List.append_nil]
      at hwritten
    rw [hevents]
    exact hwritten

end Session

end HttpFraming
