import HttpFraming.Message.Encoder
import HttpFraming.Proofs.RoundTrip.Framing
import HttpFraming.Proofs.RoundTrip.Pieces

/-!
# Decoding undoes encoding

The bytes that one encoder writes for any number of messages are decoded to the same
messages, one after the other: `Decoder.arrive_encoded`. What each of the four body writers
does with a body is said once, by the lemmas on `Encoder.encodeAll`.
-/

namespace HttpFraming

open Bytes

/-! ## Writing many parts -/

def Written.behind (written : Written σ) (before : Bytes) : Written σ :=
  { written with output := before ++ written.output }

def Message.payloads (chunks : List Bytes) (tail : Bytes) (trailers : Fields) : List (Message k) :=
  chunks.map (fun data => .payload (.chunk data)) ++ [.payload (.last tail trailers)]

namespace Encoder

variable {k : Kind}

def encodeAll (encoder : Encoder) : List (Message k) → Written Encoder
  | [] => ⟨[], encoder, none⟩
  | message :: more =>
      let written := encoder.encode message
      if written.error?.isSome then written
      else (written.state.encodeAll more).behind written.output

theorem encodeAll_cons {encoder next : Encoder} {message : Message k} {output : Bytes}
    (h : encoder.encode message = ⟨output, next, none⟩) (more : List (Message k)) :
    encoder.encodeAll (message :: more) = (next.encodeAll more).behind output := by
  simp [encodeAll, h]

theorem encodeAll_cons_ok {encoder last : Encoder} {message : Message k} {more : List (Message k)}
    {output : Bytes} (h : encoder.encodeAll (message :: more) = ⟨output, last, none⟩) :
    ∃ first next second, encoder.encode message = ⟨first, next, none⟩ ∧
      next.encodeAll more = ⟨second, last, none⟩ ∧ output = first ++ second := by
  rcases hfirst : encoder.encode message with ⟨first, next, error?⟩
  rcases hsecond : next.encodeAll more with ⟨second, state, failed?⟩
  cases error? with
  | some error => simp [encodeAll, hfirst] at h
  | none =>
      simp only [encodeAll_cons hfirst, hsecond, Written.behind, Written.mk.injEq] at h
      obtain ⟨rfl, rfl, rfl⟩ := h
      exact ⟨first, next, second, rfl, hsecond, rfl⟩

theorem encodeAll_append (encoder : Encoder) (first second : List (Message k)) :
    encoder.encodeAll (first ++ second) =
      if (encoder.encodeAll first).error?.isSome then encoder.encodeAll first
      else ((encoder.encodeAll first).state.encodeAll second).behind
        (encoder.encodeAll first).output := by
  induction first generalizing encoder with
  | nil => rfl
  | cons message more ih =>
      rw [List.cons_append, encodeAll, encodeAll]
      by_cases herror : (encoder.encode message).error?.isSome
      · simp [herror]
      · by_cases hmore : ((encoder.encode message).state.encodeAll more).error?.isSome
        · simp [herror, ih, hmore, Written.behind]
        · simp [herror, ih, hmore, Written.behind]

section Bodies

variable (chunks : List Bytes) (tail : Bytes) (trailers : Fields)

theorem encodeAll_length :
    (⟨some (.length (chunks.flatten ++ tail).length)⟩ : Encoder).encodeAll
        (Message.payloads chunks tail trailers : List (Message k)) =
      ⟨chunks.flatten ++ tail, {}, none⟩ := by
  induction chunks with
  | nil => simp [Message.payloads, encodeAll, encode, BodyWriter.write, Item.data, Item.isLast,
      Written.map, Written.behind]
  | cons data more ih =>
      have hstep : (⟨some (.length ((data :: more).flatten ++ tail).length)⟩ : Encoder).encode
          (.payload (.chunk data) : Message k) =
            ⟨data, ⟨some (.length (more.flatten ++ tail).length)⟩, none⟩ := by
        have hleft : data.length + (more.flatten ++ tail).length - data.length =
            (more.flatten ++ tail).length := Nat.add_sub_cancel_left ..
        rw [List.flatten_cons, List.append_assoc, List.length_append]
        simp only [encode, BodyWriter.write, Item.data, Item.isLast, Written.map, hleft]
        rw [if_neg (by omega)]
        rfl
      have hmore := encodeAll_cons hstep (Message.payloads more tail trailers)
      rw [ih] at hmore
      simpa [Message.payloads, Written.behind] using hmore

theorem length_of_encodeAll {n : Nat}
    (h : ((⟨some (.length n)⟩ : Encoder).encodeAll
      (Message.payloads chunks tail trailers : List (Message k))).error? = none) :
    n = (chunks.flatten ++ tail).length := by
  induction chunks generalizing n with
  | nil =>
      by_cases hlarge : n < tail.length
      · simp [Message.payloads, encodeAll, encode, BodyWriter.write, Item.data, Written.map,
          hlarge] at h
      · by_cases hleft : n - tail.length = 0
        · simp only [List.flatten_nil, List.nil_append]
          omega
        · simp [Message.payloads, encodeAll, encode, BodyWriter.write, Item.data, Item.isLast,
            Written.map, hlarge, hleft] at h
  | cons data more ih =>
      by_cases hlarge : n < data.length
      · simp [Message.payloads, encodeAll, encode, BodyWriter.write, Item.data, Written.map,
          hlarge] at h
      · have hstep : (⟨some (.length n)⟩ : Encoder).encode (.payload (.chunk data) : Message k) =
            ⟨data, ⟨some (.length (n - data.length))⟩, none⟩ := by
          simp [encode, BodyWriter.write, Item.data, Item.isLast, Written.map, hlarge]
        have hmore := encodeAll_cons hstep (Message.payloads more tail trailers)
        have hrest := ih (n := n - data.length) (by
          rw [show Message.payloads (data :: more) tail trailers =
            (.payload (.chunk data) : Message k) :: Message.payloads more tail trailers from rfl,
            hmore] at h
          exact h)
        simp only [List.flatten_cons, List.append_assoc, List.length_append] at hrest ⊢
        omega

theorem encodeAll_steady {writer : BodyWriter} (f : Bytes → Bytes) (last : Bytes)
    (hchunk : ∀ data, writer.write (.chunk data) = ⟨f data, some writer, none⟩)
    (hlast : writer.write (.last tail trailers) = ⟨last, none, none⟩) :
    (⟨some writer⟩ : Encoder).encodeAll
        (Message.payloads chunks tail trailers : List (Message k)) =
      ⟨chunks.flatMap f ++ last, {}, none⟩ := by
  induction chunks with
  | nil => simp [Message.payloads, encodeAll, encode, hlast, Written.map, Written.behind]
  | cons data more ih =>
      have hstep : (⟨some writer⟩ : Encoder).encode (.payload (.chunk data) : Message k) =
          ⟨f data, ⟨some writer⟩, none⟩ := by
        simp [encode, hchunk, Written.map]
      have hmore := encodeAll_cons hstep (Message.payloads more tail trailers)
      rw [ih] at hmore
      simpa [Message.payloads, Written.behind] using hmore

theorem encodeAll_chunked :
    (⟨some .chunked⟩ : Encoder).encodeAll
        (Message.payloads chunks tail trailers : List (Message k)) =
      ⟨(chunks ++ [tail]).flatMap Chunk.write ++ Chunk.writeEnd trailers, {}, none⟩ := by
  rw [encodeAll_steady chunks tail trailers Chunk.write _ (fun _ => rfl) rfl]
  simp

theorem encodeAll_plain :
    (⟨some .plain⟩ : Encoder).encodeAll
        (Message.payloads chunks tail trailers : List (Message k)) =
      ⟨chunks.flatten ++ tail, {}, none⟩ := by
  rw [encodeAll_steady chunks tail trailers id _ (fun _ => rfl) rfl]
  simp [Item.data]

theorem encodeAll_nothing :
    (⟨some .nothing⟩ : Encoder).encodeAll
        (Message.payloads chunks tail trailers : List (Message k)) = ⟨[], {}, none⟩ := by
  rw [encodeAll_steady chunks tail trailers (fun _ => []) _ (fun _ => rfl) rfl]
  simp

end Bodies

end Encoder

/-! ## Messages -/

/-- A message as it is given to an encoder: its head, the data of its chunks, and the last
piece of its body. -/
structure Parts (k : Kind) where
  head : Head k
  chunks : List Bytes := []
  tail : Bytes := []
  trailers : Fields := ∅

namespace Parts

variable {k : Kind}

def body (parts : Parts k) : Bytes :=
  parts.chunks.flatten ++ parts.tail

def messages (parts : Parts k) : List (Message k) :=
  .header parts.head :: Message.payloads parts.chunks parts.tail parts.trailers

/-- The parts as they are read: the body in one chunk if there is any, and trailers behind
chunks only. -/
def received (parts : Parts k) : List (Message k) :=
  .header parts.head :: (Message.chunkOf parts.body ++
    [.payload (.last [] (if parts.head.isChunked then parts.trailers else ∅))])

/-- A message that a decoder with these limits gives back: a head that is readable and may
have a body, with a consistent framing, pieces that are sized by a machine word, and trailers
within their limits. -/
structure IsReadable (limits : Limits) (parts : Parts k) : Prop where
  head : ∃ written, parts.head.IsReadable limits written
  bodied : parts.head.isBodiless = false
  framing : ∃ framing, parts.head.Announces framing
  absent : parts.head.Announces .empty → parts.body = []
  words : ∀ data ∈ parts.chunks ++ [parts.tail], data.length < Numeral.wordBound
  trailers : parts.trailers.AreTrailers

theorem join_received_append (parts : Parts k) (more : List (Message k)) :
    Message.join (parts.received ++ more) = parts.received ++ Message.join more := by
  by_cases hbody : parts.body = []
  · simp [received, Message.chunkOf, hbody, Message.join_cons, Message.joinOne]
  · simp [received, Message.chunkOf, hbody, Message.join_cons, Message.joinOne]

theorem join_received (all : List (Parts k)) :
    Message.join (all.flatMap received) = all.flatMap received := by
  induction all with
  | nil => rfl
  | cons parts all ih => rw [List.flatMap_cons, join_received_append, ih]

variable {limits : Limits} {parts : Parts k}

/-- The head is written, and the body in the framing that the head announces. -/
theorem encodeAll_messages {written : Bytes} (hwrite : parts.head.write = .ok written) :
    ({} : Encoder).encodeAll parts.messages =
      ((⟨some (.ofFraming parts.head.announcedFraming)⟩ : Encoder).encodeAll
        (Message.payloads parts.chunks parts.tail parts.trailers : List (Message k))).behind
          written := by
  have hhead : ({} : Encoder).encode (.header parts.head) =
      ⟨written, ⟨some (.ofFraming parts.head.announcedFraming)⟩, none⟩ := by
    simp [Encoder.encode, Encoder.encodeHead, Encoder.isIdle, hwrite]
  exact Encoder.encodeAll_cons hhead _

section Taken

variable {ρ : Type} {ask : HeadRule k ρ} {rule rule' : ρ}

/-- A message is taken if its body is. -/
theorem takes_of_body {written bytes : Bytes} {framing : Framing} {items : List (Message k)}
    (hreadable : parts.head.IsReadable limits written)
    (hannounces : parts.head.Announces framing) (hask : ask parts.head rule = (false, rule'))
    (hwritten : (⟨some (.ofFraming (if framing.isEmpty then .untilClose else framing))⟩ :
      Encoder).encodeAll (Message.payloads parts.chunks parts.tail parts.trailers :
        List (Message k)) = ⟨bytes, {}, none⟩)
    (hbody : Decoder.Takes ask (⟨limits, .body (.ofFraming framing)⟩, rule') bytes items
      (⟨limits, .head⟩, rule')) :
    Decoder.Takes ask (⟨limits, .head⟩, rule) (({} : Encoder).encodeAll parts.messages).output
        (.header parts.head :: items) (⟨limits, .head⟩, rule') ∧
      (({} : Encoder).encodeAll parts.messages).state = {} := by
  rw [encodeAll_messages hreadable.write_eq, hannounces.announcedFraming, hwritten]
  exact ⟨(Decoder.Takes.ofHead hreadable hask (hannounces.frame limits)).trans hbody, rfl⟩

/-- What is written for one message is taken as that message. -/
theorem takes (h : parts.IsReadable limits)
    (hencoded : (({} : Encoder).encodeAll parts.messages).error? = none)
    (hask : ask parts.head rule = (false, rule')) :
    Decoder.Takes ask (⟨limits, .head⟩, rule) (({} : Encoder).encodeAll parts.messages).output
        parts.received (⟨limits, .head⟩, rule') ∧
      (({} : Encoder).encodeAll parts.messages).state = {} := by
  obtain ⟨written, hreadable⟩ := h.head
  obtain ⟨framing, hannounces⟩ := h.framing
  have hannounced := hannounces
  cases hannounces with
  | length value n hvalues hread hword hcoding =>
      rw [encodeAll_messages hreadable.write_eq, hannounced.announcedFraming] at hencoded
      have hn : n = parts.body.length :=
        Encoder.length_of_encodeAll parts.chunks parts.tail parts.trailers hencoded
      subst hn
      rw [received, Head.isChunked_of_not_contains hcoding]
      exact takes_of_body hreadable hannounced hask (Encoder.encodeAll_length ..)
        (.ofLength parts.body)
  | chunked hchunked hlength =>
      rw [received, hchunked, body,
        show parts.chunks.flatten ++ parts.tail = (parts.chunks ++ [parts.tail]).flatten by simp]
      exact takes_of_body hreadable hannounced hask (Encoder.encodeAll_chunked ..)
        (.ofChunked h.words h.trailers)
  | empty hrequest hcoding hlength =>
      have hnothing : parts.chunks.flatten ++ parts.tail = [] := h.absent hannounced
      have hwritten := @Encoder.encodeAll_plain k parts.chunks parts.tail parts.trailers
      rw [hnothing] at hwritten
      rw [received, Head.isChunked_of_not_contains hcoding, body, hnothing]
      exact takes_of_body hreadable hannounced hask hwritten .ofNothing

end Taken

theorem encoded_cons {all : List (Parts k)} (h : parts.IsReadable limits)
    (hencoded : (({} : Encoder).encodeAll ((parts :: all).flatMap messages)).error? = none) :
    (({} : Encoder).encodeAll parts.messages).error? = none ∧
      (({} : Encoder).encodeAll (all.flatMap messages)).error? = none ∧
      ({} : Encoder).encodeAll ((parts :: all).flatMap messages) =
        (({} : Encoder).encodeAll (all.flatMap messages)).behind
          (({} : Encoder).encodeAll parts.messages).output := by
  rw [List.flatMap_cons, Encoder.encodeAll_append] at hencoded ⊢
  by_cases herror : (({} : Encoder).encodeAll parts.messages).error?.isSome
  · rw [if_pos herror] at hencoded
    simp [hencoded] at herror
  · rw [if_neg herror] at hencoded ⊢
    have hnone : (({} : Encoder).encodeAll parts.messages).error? = none := by simpa using herror
    have hasked : statusRule k parts.head () = (false, ()) := by simp [statusRule, h.bodied]
    have hidle := (takes h hnone hasked).2
    rw [hidle] at hencoded ⊢
    exact ⟨hnone, hencoded, rfl⟩

theorem takes_all (all : List (Parts k)) (hall : ∀ parts ∈ all, parts.IsReadable limits)
    (hencoded : (({} : Encoder).encodeAll (all.flatMap messages)).error? = none) :
    Decoder.Takes (statusRule k) (⟨limits, .head⟩, ())
        (({} : Encoder).encodeAll (all.flatMap messages)).output (all.flatMap received)
        (⟨limits, .head⟩, ()) ∧
      (({} : Encoder).encodeAll (all.flatMap messages)).state = {} := by
  induction all with
  | nil => exact ⟨.refl _, rfl⟩
  | cons parts all ih =>
      rw [List.forall_mem_cons] at hall
      obtain ⟨hfirst, hrest, hwhole⟩ := encoded_cons hall.1 hencoded
      have hasked : statusRule k parts.head () = (false, ()) := by
        simp [statusRule, hall.1.bodied]
      obtain ⟨htaken, _⟩ := takes hall.1 hfirst hasked
      obtain ⟨hmore, hidle⟩ := ih hall.2 hrest
      rw [hwhole]
      exact ⟨htaken.trans hmore, hidle⟩

end Parts

namespace Decoder

variable {k : Kind}

/-- Decoding undoes encoding. Messages that one encoder has written without an error are
decoded, in whatever pieces the bytes arrive: for each of them its head, its body up to the
cuts between chunks, and its trailers where it is chunked. No byte is left, and both ends
stand between messages. -/
theorem arrive_encoded (limits : Limits) (all : List (Parts k))
    (hall : ∀ parts ∈ all, parts.IsReadable limits)
    (hencoded : (({} : Encoder).encodeAll (all.flatMap Parts.messages)).error? = none)
    (pieces : List Bytes)
    (hpieces : pieces.flatten = (({} : Encoder).encodeAll (all.flatMap Parts.messages)).output)
    (ended : Bool) :
    let arrived := (source (statusRule k)).arrive (⟨limits, .head⟩, ()) pieces ended
    Message.join arrived.values = all.flatMap Parts.received ∧ arrived.error? = none ∧
      arrived.rest = [] ∧ arrived.state.1.isIdle = true ∧
      (({} : Encoder).encodeAll (all.flatMap Parts.messages)).state.isIdle = true := by
  obtain ⟨htakes, hidle⟩ := Parts.takes_all all hall hencoded
  rw [← hpieces] at htakes
  have harrived := htakes.arrive ended
  rw [Parts.join_received] at harrived
  simp only [Drained.joined, Drained.mk.injEq] at harrived
  obtain ⟨hvalues, herror, hstate, hrest⟩ := harrived
  intro arrived
  exact ⟨hvalues, herror, hrest, by rw [hstate]; rfl, by rw [hidle]; rfl⟩

/-- A request with a length, a chunked one with trailers, and one without a body. -/
def threeRequests : List (Parts .request) :=
  let method : Method := ⟨ascii "PUT", by decide⟩
  let trailer : FieldName × FieldValue := (.expect, .close)
  [{ head := { line := ⟨method, .root⟩, fields := (∅ : Fields).insert .contentLength (.ofNat 5) }
     chunks := [ascii "he", ascii "llo"] },
   { head := { line := ⟨method, .root⟩, fields := (∅ : Fields).insert .transferEncoding .chunked }
     chunks := [ascii "a", [], ascii "bc"]
     tail := ascii "d"
     trailers := .ofList [trailer, trailer] },
   { head := { line := ⟨.get, .root⟩, version := .http10 } }]

theorem threeRequests_readable : ∀ parts ∈ threeRequests, parts.IsReadable {} := by
  have hline := Kind.keepsLine_root .get
  have hnone : (∅ : Fields).AreTrailers :=
    ⟨by decide +kernel, by decide +kernel, by decide +kernel⟩
  simp only [threeRequests, List.forall_mem_cons]
  refine ⟨⟨⟨_, rfl, hline, ?_, ?_, ?_⟩, rfl, ⟨_, .length _ 5 rfl ?_ ?_ ?_⟩, fun h => ?_, ?_, hnone⟩,
    ⟨⟨_, rfl, hline, ?_, ?_, ?_⟩, rfl, ⟨_, .chunked ?_ ?_⟩, fun h => ?_, ?_, ⟨?_, ?_, ?_⟩⟩,
    ⟨⟨_, rfl, hline, ?_, ?_, ?_⟩, rfl, ⟨_, .empty rfl ?_ ?_⟩, fun h => ?_, ?_, hnone⟩, by simp⟩
  case refine_7 =>
    cases h with
    | empty _ _ hlength => exact absurd hlength (by decide +kernel)
  case refine_14 =>
    cases h with
    | empty _ hcoding _ => exact absurd hcoding (by decide +kernel)
  all_goals decide +kernel

/-- The cuts are inside a start line and inside a chunk. -/
theorem arrive_encoded_of_pipeline :
    let written := ({} : Encoder).encodeAll (threeRequests.flatMap Parts.messages)
    let arrived := (source (statusRule .request)).arrive (⟨{}, .head⟩, ())
      [written.output.take 3, (written.output.take 98).drop 3, written.output.drop 98] true
    (∀ parts ∈ threeRequests, parts.IsReadable {}) ∧ written.error? = none ∧
      Message.join arrived.values = threeRequests.flatMap Parts.received ∧
      arrived.state.1.isIdle = true := by
  intro written arrived
  have hencoded : written.error? = none := by decide +kernel
  have hpieces : [written.output.take 3, (written.output.take 98).drop 3,
      written.output.drop 98].flatten = written.output := by
    decide +kernel
  obtain ⟨hvalues, _, _, hidle, _⟩ :=
    arrive_encoded {} threeRequests threeRequests_readable hencoded _ hpieces true
  exact ⟨threeRequests_readable, hencoded, hvalues, hidle⟩

end Decoder

end HttpFraming
