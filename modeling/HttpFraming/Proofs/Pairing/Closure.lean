import HttpFraming.Proofs.Pairing.Agreement

/-!
# The report of missing responses

A client that reports missing responses keeps one number: the requests sent to their ends less the
final responses. `Correspondence` keeps beside it which response answered which request, and
`Correspondence.Run.close_eq` says what the number is worth when the connection closes. A response
that comes before its request is sent does no harm, as no earlier request is then unanswered. One
that comes when nothing is unanswered is set off against a request sent later, which is then
missing from the report.
-/

namespace HttpFraming

/-! ## Correspondences -/

structure Asked where
  method : Method
  sent : Bool := false
  answered : Bool := false

/-- A pairing and the requests it is about, oldest first. `stray` counts the final responses that
came when no request was unanswered. -/
structure Correspondence where
  pairing : ClientPairing := {}
  requests : List Asked := []
  stray : Nat := 0

namespace Correspondence

/-- The events at a client. A request begins when the one before it was sent to its end; a final
response answers the oldest unanswered request, or nothing if there is none. -/
inductive Step (c : Correspondence) : Correspondence → Prop
  | head (method : Method) (hsent : ∀ request ∈ c.requests, request.sent = true) :
      Step c { c with
        pairing := c.pairing.requestHead method
        requests := c.requests ++ [{ method }] }
  | sent (before : List Asked) (last : Asked) (hlast : c.requests = before ++ [last])
      (hopen : last.sent = false) :
      Step c { c with
        pairing := c.pairing.requestSent
        requests := before ++ [{ last with sent := true }] }
  | interim (status : Status) (hinterim : status.isInterim = true) :
      Step c { c with pairing := (c.pairing.responseHead status).2 }
  | answer (status : Status) (hfinal : status.isInterim = false) (before : List Asked)
      (oldest : Asked) (after : List Asked) (hnext : c.requests = before ++ oldest :: after)
      (hbefore : ∀ request ∈ before, request.answered = true) (hopen : oldest.answered = false) :
      Step c { c with
        pairing := (c.pairing.responseHead status).2
        requests := before ++ { oldest with answered := true } :: after }
  | stray (status : Status) (hfinal : status.isInterim = false)
      (hnone : ∀ request ∈ c.requests, request.answered = true) :
      Step c { c with
        pairing := (c.pairing.responseHead status).2
        stray := c.stray + 1 }

inductive Run (settings : ClientSettings) : Correspondence → Prop
  | start : Run settings { pairing := { settings } }
  | step {c next : Correspondence} (hrun : Run settings c) (hstep : c.Step next)
      (hopen : next.pairing.tunnel = false) : Run settings next

def unanswered (c : Correspondence) : Nat :=
  c.requests.countP fun request => request.sent && !request.answered

/-- What holds between any two events. Only the latest request may be unsent, and those that are
answered come first. -/
structure Balanced (settings : ClientSettings) (c : Correspondence) : Prop where
  kept : c.pairing.settings = settings
  untunneled : c.pairing.tunnel = false
  queue : c.pairing.pending.methods = (c.requests.filter (!·.answered)).map Asked.method
  ordered : c.requests.Pairwise fun earlier later =>
    earlier.sent = true ∧ (later.answered = true → earlier.answered = true)
  counter : settings.reportMissing = true → c.pairing.outstanding =
    (c.requests.countP Asked.sent : Int) - c.requests.countP Asked.answered - c.stray

end Correspondence

/-! ## One event -/

namespace ClientPairing

theorem requestHead_of_open {pairing : ClientPairing} (htunnel : pairing.tunnel = false)
    (method : Method) :
    pairing.requestHead method = { pairing with pending := pairing.pending.push method } := by
  simp [requestHead, htunnel]

theorem requestSent_of_open {pairing : ClientPairing} (htunnel : pairing.tunnel = false) :
    pairing.requestSent = { pairing with
      outstanding := if pairing.settings.reportMissing then pairing.outstanding + 1
        else pairing.outstanding } := by
  obtain ⟨settings, pending, tunnel, outstanding⟩ := pairing
  obtain rfl : tunnel = false := htunnel
  cases hreports : settings.reportMissing <;> simp [requestSent, hreports]

theorem responseHead_outstanding (pairing : ClientPairing) (status : Status)
    (hreports : pairing.settings.reportMissing = true) :
    (pairing.responseHead status).2.outstanding =
      if status.isInterim then pairing.outstanding else pairing.outstanding - 1 := by
  cases hinterim : status.isInterim <;> simp [responseHead, hreports, hinterim]

end ClientPairing

namespace Correspondence.Balanced

variable {settings : ClientSettings} {c : Correspondence} (h : c.Balanced settings)

include h

theorem head (method : Method) (hsent : ∀ request ∈ c.requests, request.sent = true) :
    Balanced settings { c with
      pairing := c.pairing.requestHead method
      requests := c.requests ++ [{ method }] } := by
  rw [ClientPairing.requestHead_of_open h.untunneled]
  refine ⟨h.kept, h.untunneled, ?_, ?_, ?_⟩
  · simp [Pending.push, h.queue]
  · refine List.pairwise_append.mpr ⟨h.ordered, List.pairwise_singleton .., ?_⟩
    intro earlier hmem later hlater
    rw [List.mem_singleton.mp hlater]
    exact ⟨hsent earlier hmem, by simp⟩
  · intro hreports
    simp [h.counter hreports]

theorem sent {before : List Asked} {last : Asked} (hlast : c.requests = before ++ [last])
    (hopen : last.sent = false) :
    Balanced settings { c with
      pairing := c.pairing.requestSent
      requests := before ++ [{ last with sent := true }] } := by
  have hqueue := h.queue
  have hordered := h.ordered
  rw [hlast] at hqueue hordered
  rw [ClientPairing.requestSent_of_open h.untunneled]
  refine ⟨h.kept, h.untunneled, ?_, ?_, ?_⟩
  · rw [hqueue]
    cases hanswered : last.answered <;> simp [hanswered]
  · obtain ⟨hbefore, -, hacross⟩ := List.pairwise_append.mp hordered
    refine List.pairwise_append.mpr ⟨hbefore, List.pairwise_singleton .., ?_⟩
    intro earlier hmem later hlater
    rw [List.mem_singleton.mp hlater]
    exact hacross earlier hmem last (by simp)
  · intro hreports
    have hcounter := h.counter hreports
    rw [hlast] at hcounter
    simp only [h.kept, hreports, if_true, hcounter, List.countP_append, List.countP_singleton,
      hopen]
    simp
    omega

theorem interim {status : Status} (hinterim : status.isInterim = true)
    (hopen : (c.pairing.responseHead status).2.tunnel = false) :
    Balanced settings { c with pairing := (c.pairing.responseHead status).2 } := by
  refine ⟨h.kept, hopen, ?_, h.ordered, fun hreports => ?_⟩
  · rw [c.pairing.responseHead_pending hopen, Pending.answer_of_interim hinterim, h.queue]
  · rw [c.pairing.responseHead_outstanding status (h.kept ▸ hreports), if_pos hinterim,
      h.counter hreports]

theorem answer {status : Status} (hfinal : status.isInterim = false) {before : List Asked}
    {oldest : Asked} {after : List Asked} (hnext : c.requests = before ++ oldest :: after)
    (hbefore : ∀ request ∈ before, request.answered = true) (hunanswered : oldest.answered = false)
    (hopen : (c.pairing.responseHead status).2.tunnel = false) :
    Balanced settings { c with
      pairing := (c.pairing.responseHead status).2
      requests := before ++ { oldest with answered := true } :: after } := by
  have hqueue := h.queue
  have hordered := h.ordered
  have hnone : before.filter (!·.answered) = [] := by
    rw [List.filter_eq_nil_iff]
    intro request hmem
    simp [hbefore request hmem]
  rw [hnext] at hqueue hordered
  refine ⟨h.kept, hopen, ?_, ?_, fun hreports => ?_⟩
  · rw [List.filter_append, hnone, List.nil_append, List.filter_cons_of_pos (by simp [hunanswered]),
      List.map_cons] at hqueue
    rw [c.pairing.responseHead_pending hopen, Pending.answer_of_final hfinal hqueue]
    simp [hnone]
  · obtain ⟨hfront, hback, hacross⟩ := List.pairwise_append.mp hordered
    obtain ⟨holdest, hafter⟩ := List.pairwise_cons.mp hback
    refine List.pairwise_append.mpr ⟨hfront, List.pairwise_cons.mpr ⟨?_, hafter⟩, ?_⟩
    · exact fun later hmem => ⟨(holdest later hmem).1, fun _ => rfl⟩
    · intro earlier hmem later _
      exact ⟨(hacross earlier hmem oldest (by simp)).1, fun _ => hbefore earlier hmem⟩
  · have hcounter := h.counter hreports
    rw [hnext] at hcounter
    rw [c.pairing.responseHead_outstanding status (h.kept ▸ hreports), hcounter]
    simp only [hfinal, Bool.false_eq_true, if_false, List.countP_append, List.countP_cons,
      hunanswered, if_true]
    omega

theorem stray {status : Status} (hfinal : status.isInterim = false)
    (hnone : ∀ request ∈ c.requests, request.answered = true)
    (hopen : (c.pairing.responseHead status).2.tunnel = false) :
    Balanced settings { c with
      pairing := (c.pairing.responseHead status).2
      stray := c.stray + 1 } := by
  have hempty : c.pairing.pending.methods = [] := by
    rw [h.queue, List.map_eq_nil_iff, List.filter_eq_nil_iff]
    intro request hmem
    simp [hnone request hmem]
  refine ⟨h.kept, hopen, ?_, h.ordered, fun hreports => ?_⟩
  · rw [c.pairing.responseHead_pending hopen, ← h.queue]
    simp [Pending.answer, hfinal, hempty]
  · rw [c.pairing.responseHead_outstanding status (h.kept ▸ hreports), h.counter hreports]
    simp [hfinal]
    omega

/-- Every event keeps the account, for as long as no tunnel opens. -/
theorem step {next : Correspondence} (hstep : c.Step next)
    (hopen : next.pairing.tunnel = false) : next.Balanced settings := by
  cases hstep with
  | head method hsent => exact h.head method hsent
  | sent before last hlast hunsent => exact h.sent hlast hunsent
  | interim status hinterim => exact h.interim hinterim hopen
  | answer status hfinal before oldest after hnext hbefore hunanswered =>
      exact h.answer hfinal hnext hbefore hunanswered hopen
  | stray status hfinal hnone => exact h.stray hfinal hnone hopen

end Correspondence.Balanced

/-! ## The account -/

def ExchangeError.ofMissing? (missing : Nat) : Option ExchangeError :=
  if 0 < missing then some (.prematureClosure missing) else none

theorem ClientPairing.close_of_reports {pairing : ClientPairing}
    (hreports : pairing.settings.reportMissing = true) :
    pairing.close.1 = ExchangeError.ofMissing? pairing.outstanding.toNat := by
  by_cases hmissing : 0 < pairing.outstanding
  · have hcount : 0 < pairing.outstanding.toNat := Int.pos_iff_toNat_pos.mp hmissing
    simp [close, hreports, hmissing, ExchangeError.ofMissing?, hcount]
  · have hcount : ¬0 < pairing.outstanding.toNat := hmissing ∘ Int.pos_iff_toNat_pos.mpr
    simp [close, hmissing, ExchangeError.ofMissing?, hcount]

namespace Correspondence

/-- Of the requests that are sent or answered, those that are both cancel out. -/
theorem countP_sent_sub_answered (requests : List Asked) :
    (requests.countP Asked.sent : Int) - requests.countP Asked.answered =
      requests.countP (fun request => request.sent && !request.answered) -
        requests.countP (fun request => request.answered && !request.sent) := by
  induction requests with
  | nil => rfl
  | cons request more ih =>
      rcases request with ⟨method, sent, answered⟩
      cases sent <;> cases answered <;> simp <;> omega

/-- Of requests in order, if one is answered before it is sent, then it is the latest one and
none is unanswered. -/
theorem early_or_unanswered {requests : List Asked}
    (hordered : requests.Pairwise fun earlier later =>
      earlier.sent = true ∧ (later.answered = true → earlier.answered = true)) :
    requests.countP (fun request => request.answered && !request.sent) = 0 ∨
      requests.countP (fun request => request.sent && !request.answered) = 0 := by
  induction requests with
  | nil => exact .inl rfl
  | cons first more ih =>
      obtain ⟨hfirst, hmore⟩ := List.pairwise_cons.mp hordered
      cases more with
      | nil => cases hanswered : first.answered <;> simp [hanswered]
      | cons second rest =>
          have hsent : first.sent = true := (hfirst second (by simp)).1
          cases hanswered : first.answered with
          | true => simpa [List.countP_cons, hsent, hanswered] using ih hmore
          | false =>
              -- Nothing behind an unanswered request is answered.
              left
              rw [List.countP_eq_zero]
              intro request hmem
              rcases List.mem_cons.mp hmem with rfl | hlater
              · simp [hanswered]
              · have hwaits := (hfirst request hlater).2
                rw [hanswered] at hwaits
                have hunanswered : request.answered = false := by simpa using hwaits
                simp [hunanswered]

/-- What the account is worth: the unanswered requests less the stray responses, or nothing if a
request is answered before it is sent. -/
theorem Balanced.outstanding {settings : ClientSettings} {c : Correspondence}
    (h : c.Balanced settings) (hreports : settings.reportMissing = true) :
    c.pairing.outstanding.toNat = c.unanswered - c.stray := by
  have hcounter := h.counter hreports
  rw [countP_sent_sub_answered] at hcounter
  unfold unanswered
  rcases early_or_unanswered h.ordered with hearly | hnone <;> omega

theorem Run.balanced {settings : ClientSettings} {c : Correspondence} (hrun : Run settings c) :
    c.Balanced settings := by
  induction hrun with
  | start => exact ⟨rfl, rfl, rfl, .nil, fun _ => rfl⟩
  | step _ hstep hopen ih => exact ih.step hstep hopen

/-- Whatever the order in which requests are sent and responses come, a connection that closes
reports the requests that were sent to their ends and are unanswered, less the final responses
that came when none was unanswered; it does so once. The report is exact if there was no such
response, or if no request is unanswered, and in no other case. All the while the queue holds the
methods of the unanswered requests. -/
theorem Run.close_eq {settings : ClientSettings} {c : Correspondence} (hrun : Run settings c)
    (hreports : settings.reportMissing = true) :
    c.pairing.close.1 = ExchangeError.ofMissing? (c.unanswered - c.stray) ∧
      (c.pairing.close.1 = ExchangeError.ofMissing? c.unanswered ↔ c.stray = 0 ∨ c.unanswered = 0) ∧
      c.pairing.close.2.close.1 = none ∧
      c.pairing.pending.methods = (c.requests.filter (!·.answered)).map Asked.method := by
  have h := hrun.balanced
  have hclose : c.pairing.close.1 = ExchangeError.ofMissing? (c.unanswered - c.stray) := by
    rw [ClientPairing.close_of_reports (h.kept ▸ hreports), h.outstanding hreports]
  refine ⟨hclose, ?_, by simp [ClientPairing.close], h.queue⟩
  rw [hclose]
  unfold ExchangeError.ofMissing?
  split <;> split <;> simp <;> omega

/-- A request is refused before it is sent to its end, and the one behind it is not answered. -/
theorem Run.close_eq_of_early_response :
    ∃ c, Run { reportMissing := true } c ∧ c.requests.map Asked.sent = [true, true] ∧
      c.requests.map Asked.answered = [true, false] ∧
      c.pairing.close.1 = some (.prematureClosure 1) ∧ c.pairing.close.2.close.1 = none := by
  have hstart : Run { reportMissing := true } _ := .start
  have hfirst : Run { reportMissing := true } _ := hstart.step (.head .get (by decide)) rfl
  have hrefused : Run { reportMissing := true } _ :=
    hfirst.step (.answer .payloadTooLarge rfl [] _ [] rfl (by decide) rfl) rfl
  have hsent : Run { reportMissing := true } _ := hrefused.step (.sent [] _ rfl rfl) rfl
  have hget : Run { reportMissing := true } _ := hsent.step (.head .get (by decide)) rfl
  have hboth : Run { reportMissing := true } _ := hget.step (.sent [_] _ rfl rfl) rfl
  obtain ⟨hclose, -, hagain, -⟩ := hboth.close_eq rfl
  exact ⟨_, hboth, rfl, rfl, hclose, hagain⟩

/-- A response that nobody asked for hides that the request sent after it is never answered. -/
theorem close_of_stray_response :
    ∃ c, Run { reportMissing := true } c ∧ c.unanswered = 1 ∧ c.pairing.close.1 = none := by
  have hstart : Run { reportMissing := true } _ := .start
  have hstray : Run { reportMissing := true } _ :=
    hstart.step (.stray .badRequest rfl (by decide)) rfl
  have hget : Run { reportMissing := true } _ := hstray.step (.head .get (by decide)) rfl
  have hsent : Run { reportMissing := true } _ := hget.step (.sent [] _ rfl rfl) rfl
  exact ⟨_, hsent, rfl, rfl⟩

end Correspondence

end HttpFraming
