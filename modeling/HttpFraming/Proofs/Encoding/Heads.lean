import HttpFraming.Message.Encoder

/-!
# Heads that an encoder refuses

An encoder refuses a head while a message is under way, and one that has no written form. In the
first case it is left as it was. In the second it takes the head for written: it refuses further
heads and writes the pieces of a body that nothing announces, until the last of them. So a refused
head goes unnoticed if and only if a message was under way: `Encoder.giveHead_refused`.
-/

namespace HttpFraming

open Bytes

namespace Encoder

variable {k : Kind}

/-! ## Many parts -/

/-- Offers parts one after the other, whether they are refused or not, with what becomes of
each. -/
def offer (encoder : Encoder) : List (Message k) → List (Written Encoder)
  | [] => []
  | message :: more =>
      let written := encoder.encode message
      written :: written.state.offer more

def after (encoder : Encoder) (messages : List (Message k)) : Encoder :=
  messages.foldl (fun encoder message => (encoder.encode message).state) encoder

/-! ## One head -/

/-- What becomes of a head, under a framing that is forced on it or else under the one that it
announces. -/
def giveHead (encoder : Encoder) (h : Head k) : Option Framing → Written Encoder
  | none => encoder.encode (.header h)
  | some framing => encoder.encodeHead h framing

theorem giveHead_eq (encoder : Encoder) (h : Head k) (forced? : Option Framing) :
    encoder.giveHead h forced? = encoder.encodeHead h (forced?.getD h.announcedFraming) := by
  cases forced? <;> rfl

theorem eq_of_isIdle {encoder : Encoder} (hidle : encoder.isIdle = true) : encoder = {} := by
  obtain ⟨body?⟩ := encoder
  cases body? with
  | none => rfl
  | some writer => cases hidle

theorem encodeHead_of_busy {encoder : Encoder} (hbusy : encoder.isIdle = false) (h : Head k)
    (framing : Framing) : encoder.encodeHead h framing = encoder.refuse .headBeforeLast := by
  simp [encodeHead, hbusy]

theorem encodeHead_of_write {output : Bytes} {h : Head k} (hwrite : h.write = .ok output)
    (framing : Framing) :
    ({} : Encoder).encodeHead h framing = ⟨output, ⟨some (.ofFraming framing)⟩, none⟩ := by
  simp [encodeHead, isIdle, hwrite]

/-- Between messages nothing but the version is a reason to refuse a head. -/
theorem encodeHead_of_unwritten {h : Head k} {framing : Framing}
    (hrefused : (({} : Encoder).encodeHead h framing).error?.isSome = true) :
    ({} : Encoder).encodeHead h framing =
      ⟨[], ⟨some (.ofFraming framing)⟩, some .unsupportedVersion⟩ := by
  cases hwrite : h.write with
  | ok output => simp [encodeHead_of_write hwrite] at hrefused
  | error error =>
      have hversion : error = .unsupportedVersion := by
        unfold Head.write at hwrite
        split at hwrite
        · exact (Except.error.inj hwrite).symm
        · cases hwrite
      simp [encodeHead, isIdle, hwrite, hversion]

theorem offer_head_ne {encoder left : Encoder} (hidle : encoder.isIdle = true)
    (hbusy : left.isIdle = false) (h : Head k) :
    left.offer [.header { h with version := .http11 }] ≠
      encoder.offer [.header { h with version := .http11 }] := by
  intro hsame
  have hfirst := congrArg (·.head?.bind Written.error?) hsame
  simp only [offer, List.head?_cons, Option.bind_some, encode, encodeHead_of_busy hbusy,
    eq_of_isIdle hidle] at hfirst
  rw [encodeHead_of_write rfl] at hfirst
  cases hfirst

/-- Nothing is written for a head that is refused. The encoder is left as it was if and only if a
message was under way, and otherwise some parts that follow are dealt with in another way. Between
messages it is left as if the same head had been written in version 1.1: until the body that is
under way has ended it refuses every head, and then it is as it was. -/
theorem giveHead_refused (encoder : Encoder) (h : Head k) (forced? : Option Framing)
    (hrefused : (encoder.giveHead h forced?).error?.isSome = true) :
    let refused := encoder.giveHead h forced?
    let left := refused.state
    refused.output = [] ∧
      refused.error? = some (if encoder.isIdle then .unsupportedVersion
        else .unexpectedItem .headBeforeLast) ∧
      (encoder.isIdle = false → left = encoder) ∧
      ((∀ more : List (Message k), left.offer more = encoder.offer more) ↔
        encoder.isIdle = false) ∧
      (encoder.isIdle = true →
        left = (encoder.giveHead { h with version := .http11 } forced?).state ∧
        left.isIdle = false ∧
        ∀ body : List (Message k),
          if (left.after body).isIdle then left.after body = encoder
          else ∀ (other : Head k) (framing : Framing),
            (left.after body).encodeHead other framing =
              (left.after body).refuse .headBeforeLast) := by
  intro refused left
  cases hidle : encoder.isIdle with
  | false =>
      have hanswer : refused = encoder.refuse .headBeforeLast := by
        rw [← encodeHead_of_busy hidle h (forced?.getD h.announcedFraming), ← giveHead_eq]
      have hleft : left = encoder := congrArg Written.state hanswer
      rw [hanswer, hleft]
      exact ⟨rfl, rfl, fun _ => rfl, by simp, nofun⟩
  | true =>
      obtain rfl : encoder = {} := eq_of_isIdle hidle
      have hanswer : refused = ⟨[], ⟨some (.ofFraming (forced?.getD h.announcedFraming))⟩,
          some .unsupportedVersion⟩ := by
        rw [giveHead_eq] at hrefused
        rw [← encodeHead_of_unwritten hrefused, ← giveHead_eq]
      have hleft : left = ⟨some (.ofFraming (forced?.getD h.announcedFraming))⟩ :=
        congrArg Written.state hanswer
      have hbusy : left.isIdle = false := by rw [hleft]; rfl
      refine ⟨by rw [hanswer], by rw [hanswer]; rfl, nofun, ?_, fun _ => ⟨?_, hbusy, ?_⟩⟩
      · -- The same head in version 1.1 tells the two encoders apart.
        simp only [Bool.true_eq_false, iff_false]
        exact fun hall => offer_head_ne hidle hbusy h (hall _)
      · rw [hleft, giveHead_eq, encodeHead_of_write rfl]
        rfl
      · intro body
        split
        · rename_i hended
          exact eq_of_isIdle hended
        · rename_i hunderway
          exact encodeHead_of_busy (Bool.eq_false_iff.mpr hunderway)

/-- A response of a version that has no written form, refused between messages, and refused once
more behind that, where a body is under way. -/
theorem giveHead_refused_of_version :
    let h : Response := { line := .ok, version := .http2 }
    let left := (({} : Encoder).giveHead h (some (.length 3))).state
    let second := left.giveHead h none
    (({} : Encoder).giveHead h (some (.length 3))).error? = some .unsupportedVersion ∧
      left = (({} : Encoder).giveHead { h with version := .http11 } (some (.length 3))).state ∧
      second.error? = some (.unexpectedItem .headBeforeLast) ∧ second.state = left := by
  intro h left second
  obtain ⟨-, hversion, -, -, hbetween⟩ :=
    giveHead_refused {} h (some (.length 3)) (by decide +kernel)
  obtain ⟨-, horder, hwithin, -⟩ := giveHead_refused left h none (by decide +kernel)
  exact ⟨hversion, (hbetween rfl).1, horder, hwithin rfl⟩

/-- An idle encoder that refused a head is idle no more: it writes a piece of a body that no head
has announced, and refuses the next head, which it would have written. -/
theorem isIdle_of_refused_head :
    let refused := ({} : Encoder).giveHead ({ line := .ok, version := .http2 } : Response) none
    let next : Message .response := .header { line := .ok }
    let stray : Message .response := .payload (.chunk (ascii "abc"))
    refused.error? = some .unsupportedVersion ∧ refused.output = [] ∧
      ({} : Encoder).isIdle = true ∧ refused.state.isIdle = false ∧
      (({} : Encoder).encode stray).error? = some (.unexpectedItem .payloadWithoutHead) ∧
      (refused.state.encode stray).output = ascii "abc" ∧
      (refused.state.encode stray).error? = none ∧
      (({} : Encoder).encode next).error? = none ∧
      (refused.state.encode next).error? = some (.unexpectedItem .headBeforeLast) := by
  decide +kernel

end Encoder

end HttpFraming
