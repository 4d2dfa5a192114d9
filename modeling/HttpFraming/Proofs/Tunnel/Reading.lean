import HttpFraming.Proofs.Pairing.Agreement
import HttpFraming.Proofs.Tunnel.Writing

/-!
# Reading through a tunnel

A client whose oldest request asks for a tunnel reads interim responses, then the response that
opens the tunnel, and whatever bytes follow are handed out as they are. A piece of the input may
hold the end of the one and the beginning of the other: the bytes behind the response are never
read as a part of the protocol, however the pieces are cut. See `Client.Exchanges.tunnel_reads`.
-/

namespace HttpFraming

open Bytes

/-! ## Bytes that make values, in whatever pieces they arrive -/

namespace Source

variable {σ α : Type} {source : Source σ α}

/-- A source makes these values of the bytes once all of them are there, and nothing of a part
of them; what comes behind them is for its next state. -/
structure Makes (source : Source σ α) (start : σ) (bytes : Bytes) (values : List α) (stop : σ) :
    Prop where
  whole : ∀ more, source.drain false start (bytes ++ more) =
    (source.drain false stop more).after values
  fronts : ∀ front back, bytes = front ++ back → back ≠ [] →
    source.drain false start front = ⟨[], none, start, front⟩

/-- If pieces begin with these bytes, the source makes the values of them, and goes on as if the
pieces began behind the bytes. -/
def Delivers (source : Source σ α) (start : σ) (bytes : Bytes) (values : List α) (stop : σ) :
    Prop :=
  ∀ (pieces : List Bytes) (more : Bytes), pieces.flatten = bytes ++ more →
    ∃ tail : List Bytes, tail.flatten = more ∧
      source.deliver start [] pieces = (source.deliver stop [] tail).after values

theorem deliver_cons_of_drain {start stop : σ} {waiting piece behind : Bytes} {values : List α}
    (h : source.drain false start (waiting ++ piece) =
      (source.drain false stop behind).after values) (pieces : List Bytes) :
    source.deliver start waiting (piece :: pieces) =
      (source.deliver stop [] (behind :: pieces)).after values := by
  simp only [deliver, List.nil_append, h, Drained.after_error?, Drained.after_state,
    Drained.after_rest, Drained.after_values]
  split
  · rfl
  · simp [Drained.after]

/-- A part of the bytes may wait already. -/
theorem Makes.deliver {start stop : σ} {waiting behind : Bytes} {values : List α}
    (h : source.Makes start (waiting ++ behind) values stop) (hbehind : behind ≠ [])
    {pieces : List Bytes} {more : Bytes} (hpieces : pieces.flatten = behind ++ more) :
    ∃ tail : List Bytes, tail.flatten = more ∧
      source.deliver start waiting pieces = (source.deliver stop [] tail).after values := by
  induction pieces generalizing waiting behind with
  | nil => exact absurd (List.append_eq_nil_iff.mp hpieces.symm).1 hbehind
  | cons piece pieces ih =>
      rw [List.flatten_cons] at hpieces
      -- Either the piece ends before the bytes do, or it holds their end.
      rcases cut_cases hpieces.symm with ⟨later, hlater, rfl, hmore⟩ | ⟨beyond, rfl, rfl⟩
      · have hwaits := h.fronts (waiting ++ piece) later (by simp) hlater
        rw [← List.append_assoc] at h
        obtain ⟨tail, htail, hdeliver⟩ := ih h hlater hmore
        refine ⟨tail, htail, ?_⟩
        rw [← hdeliver]
        simp [Source.deliver, hwaits]
      · have hwhole := h.whole beyond
        rw [List.append_assoc] at hwhole
        exact ⟨beyond :: pieces, rfl, deliver_cons_of_drain hwhole pieces⟩

theorem Makes.delivers {start stop : σ} {bytes : Bytes} {values : List α}
    (h : source.Makes start bytes values stop) (hbytes : bytes ≠ []) :
    source.Delivers start bytes values stop := by
  intro pieces more hpieces
  have hwaiting : source.Makes start ([] ++ bytes) values stop := h
  exact hwaiting.deliver hbytes hpieces

namespace Delivers

theorem refl (start : σ) : source.Delivers start [] [] start :=
  fun pieces _ hpieces => ⟨pieces, hpieces, (Drained.after_nil _).symm⟩

theorem trans {start middle stop : σ} {first second : Bytes} {values values' : List α}
    (h : source.Delivers start first values middle)
    (h' : source.Delivers middle second values' stop) :
    source.Delivers start (first ++ second) (values ++ values') stop := by
  intro pieces more hpieces
  rw [List.append_assoc] at hpieces
  obtain ⟨tail, htail, hfirst⟩ := h pieces (second ++ more) hpieces
  obtain ⟨rest, hrest, hsecond⟩ := h' tail more htail
  refine ⟨rest, hrest, ?_⟩
  rw [hfirst, hsecond, Drained.after_after]

end Delivers

end Source

/-! ## Responses without a body -/

namespace ClientPairing

theorem responseHead_interim (pairing : ClientPairing) {status : Status}
    (hinterim : status.isInterim = true) : pairing.responseHead status = (true, pairing) := by
  have hopens : ∀ method?, status.opensTunnel method? = false := by
    intro method?
    have hcode : status.code < 200 := by
      simp only [Status.isInterim, Status.isInformational, Bool.and_eq_true, decide_eq_true_eq]
        at hinterim
      exact hinterim.1
    have hsuccess : status.isSuccess = false := by
      simp [Status.isSuccess, Nat.not_le_of_lt hcode]
    rw [Status.opensTunnel, hsuccess, Bool.and_false]
  simp [responseHead, Pending.answer_of_interim hinterim, hopens, hinterim,
    Status.isBodilessFor_of_isInterim hinterim]

/-- A success that answers a request for a tunnel opens it, and nothing else is waited for. -/
theorem responseHead_opening {pairing : ClientPairing} {status : Status}
    (hsuccess : status.isSuccess = true) (hparses : pairing.settings.parseAfterConnect = false)
    (hconnect : pairing.pending.methods.head? = some .connect) :
    (pairing.responseHead status).1 = true ∧ (pairing.responseHead status).2.tunnel = true ∧
      (pairing.responseHead status).2.pending = {} ∧
      (pairing.responseHead status).2.settings = pairing.settings := by
  have hanswer : (pairing.pending.answer status).1 = some .connect := by
    unfold Pending.answer
    split <;> exact hconnect
  have hopens : status.opensTunnel (pairing.pending.answer status).1 = true := by
    simp [Status.opensTunnel, hanswer, hsuccess]
  simp [responseHead, hopens, hparses, Status.isBodilessFor]

theorem pending_responseHead (pairing : ClientPairing) {status : Status}
    (h : pairing.tunnel = true → pairing.pending.methods = [])
    (htunnel : (pairing.responseHead status).2.tunnel = true) :
    (pairing.responseHead status).2.pending.methods = [] := by
  simp only [responseHead, Bool.or_eq_true] at htunnel ⊢
  split
  · rfl
  · rename_i hopens
    have hpending := h (htunnel.resolve_right hopens)
    unfold Pending.answer
    split <;> simp [hpending]

end ClientPairing

namespace Client

variable {client : Client}

structure AwaitsHead (client : Client) : Prop where
  downgraded : client.upgraded = false
  untunneled : client.pairing.tunnel = false
  phase : client.decoder.phase = .head

namespace AwaitsHead

variable {response : Response}

theorem readsRaw (hawaits : client.AwaitsHead) : client.readsRaw = false := by
  simp [Client.readsRaw, hawaits.downgraded, hawaits.untunneled]

/-- A head that is ruled to have no body is handed out with the end of its body behind it. The
decoder is in that body meanwhile, so that an open tunnel has to wait. -/
theorem makes (hawaits : client.AwaitsHead) {bytes : Bytes}
    (hread : response.IsReadFrom client.decoder.limits bytes)
    (hbodiless : (client.pairing.responseHead response.status).1 = true) :
    source.Makes client bytes [.header response, .payload .done]
      { client with pairing := (client.pairing.responseHead response.status).2 } where
  whole more := by
    have hhead : client.decoder.decode bodilessRule false client.pairing (bytes ++ more) =
        ⟨some (.header response), { client.decoder with phase := .body .empty },
          (client.pairing.responseHead response.status).2, more⟩ := by
      rw [Decoder.decode_head hawaits.phase, Decoder.readHead, hread.append more]
      simp [Decoder.enter, bodilessRule, hbodiless, Head.frame, BodyReader.ofFraming]
    rw [Source.drain_of_value (pull_of_decode hawaits.readsRaw hhead)]
    have hlast : ({ client.decoder with phase := .body .empty } : Decoder .response).decode
        bodilessRule false (client.pairing.responseHead response.status).2 more =
          ⟨some (.payload .done), client.decoder,
            (client.pairing.responseHead response.status).2, more⟩ := by
      rw [Decoder.decode_body rfl, Decoder.readBody, Decoder.read_false]
      simp [BodyReader.readMore, Item.isLast, Item.done, ← hawaits.phase]
    rw [Source.drain_of_value (pull_of_decode
      (by simp [Client.readsRaw, hawaits.downgraded, Decoder.isIdle]) hlast)]
    rfl
  fronts front back hsplit hback := by
    subst hsplit
    have hwaits : client.decoder.decode bodilessRule false client.pairing front =
        ⟨none, client.decoder, client.pairing, front⟩ := by
      rw [Decoder.decode_head hawaits.phase, Decoder.readHead, hread.front hback]
      rfl
    rw [Source.drain_of_none (pull_of_decode hawaits.readsRaw hwaits)]

theorem delivers (hawaits : client.AwaitsHead) {bytes : Bytes}
    (hread : response.IsReadFrom client.decoder.limits bytes)
    (hbodiless : (client.pairing.responseHead response.status).1 = true) :
    source.Delivers client bytes [.header response, .payload .done]
      { client with pairing := (client.pairing.responseHead response.status).2 } :=
  (hawaits.makes hread hbodiless).delivers hread.ne_nil

theorem delivers_interim (hawaits : client.AwaitsHead) {bytes : Bytes}
    (hread : response.IsReadFrom client.decoder.limits bytes)
    (hinterim : response.status.isInterim = true) :
    source.Delivers client bytes [.header response, .payload .done] client := by
  have hpaired := client.pairing.responseHead_interim hinterim
  have hdelivers := hawaits.delivers hread (by rw [hpaired])
  rwa [hpaired] at hdelivers

theorem delivers_interims (hawaits : client.AwaitsHead) {interims : List (Bytes × Response)}
    (hinterims : ∀ interim ∈ interims, interim.2.status.isInterim = true ∧
      interim.2.IsReadFrom client.decoder.limits interim.1) :
    source.Delivers client (interims.flatMap Prod.fst)
      (interims.flatMap fun interim => [.header interim.2, .payload .done]) client := by
  induction interims with
  | nil => exact .refl client
  | cons interim interims ih =>
      rw [List.forall_mem_cons] at hinterims
      obtain ⟨⟨hinterim, hread⟩, hmore⟩ := hinterims
      exact (hawaits.delivers_interim hread hinterim).trans (ih hmore)

end AwaitsHead

/-! ## In a tunnel -/

/-- In a tunnel every piece is handed out as it is, and at once. -/
theorem drain_of_readsRaw (hraw : client.readsRaw = true) (bytes : Bytes) :
    source.drain false client bytes =
      ⟨if bytes = [] then [] else [.raw bytes], none, client, []⟩ := by
  have hnil : source.pull false client [] = ⟨.ok none, client, []⟩ := by
    simp [source, pull, decode, hraw, Message.takeRaw]
  cases bytes with
  | nil => rw [Source.drain_of_none hnil, if_pos rfl]
  | cons b rest =>
      have hfirst : source.pull false client (b :: rest) =
          ⟨.ok (some (.raw (b :: rest))), client, []⟩ := by
        simp [source, pull, decode, hraw, Message.takeRaw]
      rw [Source.drain_of_value hfirst, Source.drain_of_none hnil, if_neg (by simp)]

theorem deliver_of_readsRaw (hraw : client.readsRaw = true) (pieces : List Bytes) :
    source.deliver client [] pieces =
      ⟨(pieces.filter (· ≠ [])).map .raw, none, client, []⟩ := by
  induction pieces with
  | nil => rfl
  | cons piece pieces ih =>
      rw [Source.deliver, List.nil_append, drain_of_readsRaw hraw]
      by_cases hnil : piece = [] <;> simp [hnil, ih]

/-- At its end a tunnel has nothing more to hand out, and nothing to report if the client does
not report missing responses. -/
theorem drain_end_of_readsRaw (hraw : client.readsRaw = true)
    (hreports : client.pairing.settings.reportMissing = false) :
    source.drain true client [] =
      ⟨[], none, { client with pairing := client.pairing.close.2 }, []⟩ := by
  apply Source.drain_of_none
  simp [source, pull, decode, hraw, Message.takeRaw, ClientPairing.close, hreports]

/-! ## Up to the tunnel and through it -/

namespace Exchanges

variable {settings : ClientSettings} {limits : Limits} {offers : Offers}

theorem pending_of_tunnel (h : (fresh settings limits).Exchanges offers client) :
    client.upgraded = false ∧
      (client.pairing.tunnel = true → client.pairing.pending.methods = []) := by
  induction h with
  | refl => exact ⟨rfl, fun _ => rfl⟩
  | @send offers client _ message written _ ih =>
      obtain ⟨encoder, pairing, hkeeps⟩ := client.encode_keeps message
      refine ⟨by rw [hkeeps]; exact ih.1, fun htunnel => ?_⟩
      cases hbefore : client.pairing.tunnel with
      | true =>
          rw [encode_of_passes (by simp [passes, hbefore])]
          exact ih.2 hbefore
      | false =>
          rcases client.encode_pairing message with hpaired | ⟨-, -, hsent⟩
          · simp [hpaired, hbefore] at htunnel
          · simp [hsent, (requestSent_pending client.pairing).2, hbefore] at htunnel
  | @read offers client _ ended bytes ih =>
      obtain ⟨decoder, pairing, hkeeps⟩ := client.pull_keeps ended bytes
      refine ⟨by rw [hkeeps]; exact ih.1, ?_⟩
      apply pull_pairing
        (p := fun pairing => pairing.tunnel = true → pairing.pending.methods = [])
      · exact fun pairing status => pairing.pending_responseHead
      · exact fun pairing hsame => hsame
      · exact ih.2
  | prepareUpgrade _ ih => exact ih

/-- A client that waits at a head for the answer to a request for a tunnel reads the interim
responses, the response that opens the tunnel, each with an empty body whatever its fields
announce, and then every byte that follows as it is. It does so in whatever pieces the bytes
arrive, and keeps nothing behind. -/
theorem tunnel_reads (h : (fresh settings limits).Exchanges offers client)
    (hparses : client.pairing.settings.parseAfterConnect = false)
    (hreports : client.pairing.settings.reportMissing = false)
    (hidle : client.decoder.isIdle = true)
    (hconnect : client.pairing.pending.methods.head? = some .connect)
    {interims : List (Bytes × Response)}
    (hinterims : ∀ interim ∈ interims, interim.2.status.isInterim = true ∧
      interim.2.IsReadFrom client.decoder.limits interim.1)
    {opening : Bytes} {response : Response} (hsuccess : response.status.isSuccess = true)
    (hopening : response.IsReadFrom client.decoder.limits opening)
    {pieces : List Bytes} {data : Bytes}
    (hpieces : pieces.flatten = interims.flatMap Prod.fst ++ opening ++ data) :
    ∃ passed : List Bytes, passed.flatten = data ∧ [] ∉ passed ∧
      (source.arrive client pieces true).values =
        (interims.flatMap fun interim => [.header interim.2, .payload .done]) ++
          [.header response, .payload .done] ++ passed.map .raw ∧
      (source.arrive client pieces true).error? = none ∧
      (source.arrive client pieces true).rest = [] ∧
      (source.arrive client pieces true).state.pairing.pending.methods = [] := by
  obtain ⟨hupgraded, hpending⟩ := h.pending_of_tunnel
  have hawaits : client.AwaitsHead := by
    refine ⟨hupgraded, ?_, by simpa [Decoder.isIdle] using hidle⟩
    apply Bool.eq_false_iff.mpr
    intro htunnel
    simp [hpending htunnel] at hconnect
  obtain ⟨hbodiless, htunnel, hempty, hsettings⟩ :=
    ClientPairing.responseHead_opening hsuccess hparses hconnect
  have hdelivers := (hawaits.delivers_interims hinterims).trans (hawaits.delivers hopening hbodiless)
  obtain ⟨tail, htail, hdelivered⟩ := hdelivers pieces data hpieces
  -- The client once the tunnel is open, whatever has arrived behind the response.
  generalize hopened : ({ client with
    pairing := (client.pairing.responseHead response.status).2 } : Client) = opened at hdelivered
  have hraw : opened.readsRaw = true := by
    simp [← hopened, readsRaw, htunnel, hidle]
  have hquiet : opened.pairing.settings.reportMissing = false := by
    rw [← hopened, hsettings, hreports]
  have hnone : opened.pairing.close.2.pending.methods = [] := by
    simp [ClientPairing.close, ← hopened, hempty]
  have hend := drain_end_of_readsRaw hraw hquiet
  rw [deliver_of_readsRaw hraw] at hdelivered
  refine ⟨tail.filter (· ≠ []), ?_, by simp, ?_⟩
  · rw [List.flatten_filter_ne_nil, htail]
  · rw [Source.arrive, hdelivered]
    simp [hend, hnone]

/-- A tunnel of which the response announces a body, and in which a request is sent on its way. A
piece ends in the middle of each head, and one holds the end of the response and the beginning of
what is behind it. -/
theorem tunnel_reads_of_announced_body :
    let head (method : Method) : Message .request := .header { line := ⟨method, .root⟩ }
    let asked := (((fresh {} {}).encode (head .connect)).state.encode (.payload .done)).state
    let client := (asked.encode (head .get)).state
    let interim : Response := { line := .proceed }
    let response : Response :=
      { line := .ok, fields := (∅ : Fields).insert .contentLength (.ofNat 5) }
    let pieces := [ascii "HTTP/1.1 100 Con", ascii "tinue\r\n\r\nHTTP/1.1 200 OK\r\nconte",
      ascii "nt-length: 5\r\n\r\nGET / HTTP/1.1\r", ascii "\n\r\n"]
    client.pairing.pending.methods = [.connect, .get] ∧
      ∃ passed : List Bytes, passed.flatten = ascii "GET / HTTP/1.1\r\n\r\n" ∧
        (source.arrive client pieces true).values = [.header interim, .payload .done,
          .header response, .payload .done] ++ passed.map .raw := by
  intro head asked client interim response pieces
  have hpending : client.pairing.pending.methods = [.connect, .get] := by decide +kernel
  have hreached : (fresh {} {}).Exchanges
      [(head .connect, true), (.payload .done, true), (head .get, true)] client :=
    ((refl.send (head .connect) true (by decide +kernel)).send (.payload .done) true
      (by decide +kernel)).send (head .get) true (by decide +kernel)
  have hinterim : interim.IsReadable {} (ascii "HTTP/1.1 100 Continue\r\n\r\n") :=
    ⟨by cbv, trivial, by decide +kernel, by decide +kernel, by decide +kernel⟩
  have hopening : response.IsReadable {} (ascii "HTTP/1.1 200 OK\r\ncontent-length: 5\r\n\r\n") :=
    ⟨by cbv, trivial, by decide +kernel, by decide +kernel, by decide +kernel⟩
  have hinterims : ∀ first ∈ [(ascii "HTTP/1.1 100 Continue\r\n\r\n", interim)],
      first.2.status.isInterim = true ∧ first.2.IsReadFrom client.decoder.limits first.1 := by
    intro first hfirst
    rw [List.mem_singleton.mp hfirst]
    exact ⟨by decide, hinterim.isReadFrom⟩
  have hpieces : pieces.flatten =
      [(ascii "HTTP/1.1 100 Continue\r\n\r\n", interim)].flatMap Prod.fst ++
        ascii "HTTP/1.1 200 OK\r\ncontent-length: 5\r\n\r\n" ++
          ascii "GET / HTTP/1.1\r\n\r\n" := by
    decide +kernel
  obtain ⟨passed, hpassed, -, hvalues, -⟩ := tunnel_reads hreached (by decide +kernel)
    (by decide +kernel) (by decide +kernel) (by rw [hpending]; rfl) hinterims (by decide)
    hopening.isReadFrom hpieces
  exact ⟨hpending, passed, hpassed, hvalues⟩

end Exchanges

end Client

end HttpFraming
