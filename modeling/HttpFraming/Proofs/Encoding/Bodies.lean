import HttpFraming.Proofs.Encoding.Heads

/-!
# Bodies that keep to what was announced

The pieces of a body may be offered in any order, in any number of segments each, and some of them
are refused. Those that fit in what is left of an announced length are written, up to the first
last one of them, and nothing else is: `Encoder.body_within_length`. Of a message without a body
nothing is written.
-/

namespace HttpFraming

open Bytes

/-- A piece of a body whose data is held in several segments. The last one comes with trailers. -/
structure SegmentedItem where
  segments : List Bytes
  trailers? : Option Fields := none

namespace SegmentedItem

def size (piece : SegmentedItem) : Nat :=
  piece.segments.foldr (fun segment rest => segment.length + rest) 0

def isLast (piece : SegmentedItem) : Bool :=
  piece.trailers?.isSome

def item (piece : SegmentedItem) : Item :=
  piece.trailers?.elim (.chunk piece.segments.flatten) (.last piece.segments.flatten)

@[simp] theorem data_item (piece : SegmentedItem) : piece.item.data = piece.segments.flatten := by
  unfold item
  cases piece.trailers? <;> rfl

@[simp] theorem isLast_item (piece : SegmentedItem) : piece.item.isLast = piece.isLast := by
  unfold item isLast
  cases piece.trailers? <;> rfl

theorem length_flatten (piece : SegmentedItem) :
    piece.segments.flatten.length = piece.size := by
  unfold size
  induction piece.segments with
  | nil => rfl
  | cons segment rest ih => rw [List.flatten_cons, List.length_append, ih, List.foldr_cons]

def bytes (pieces : List SegmentedItem) : Bytes :=
  pieces.flatMap fun piece => piece.segments.flatten

/-- The pieces that fit in what is left of a length, up to the first last one of them. -/
def fitting (left : Nat) : List SegmentedItem → List SegmentedItem
  | [] => []
  | piece :: more =>
      if left < piece.size then fitting left more
      else if piece.isLast then [piece]
      else piece :: fitting (left - piece.size) more

theorem length_bytes_fitting_le (left : Nat) (pieces : List SegmentedItem) :
    (bytes (fitting left pieces)).length ≤ left := by
  induction pieces generalizing left with
  | nil => exact Nat.zero_le left
  | cons piece more ih =>
      have hsize := piece.length_flatten
      unfold fitting
      by_cases hexcess : left < piece.size
      · rw [if_pos hexcess]
        exact ih left
      · rw [if_neg hexcess]
        by_cases hlast : piece.isLast = true
        · rw [if_pos hlast, bytes, List.flatMap_singleton]
          omega
        · have hmore := ih (left - piece.size)
          rw [if_neg hlast, bytes, List.flatMap_cons, List.length_append]
          unfold bytes at hmore
          omega

end SegmentedItem

namespace Encoder

variable {k : Kind}

open SegmentedItem

def payloads (pieces : List SegmentedItem) : List (Message k) :=
  pieces.map fun piece => .payload piece.item

def bodyOf (k : Kind) (encoder : Encoder) (pieces : List SegmentedItem) : Bytes :=
  (encoder.offer (payloads pieces : List (Message k))).flatMap Written.output

/-! ## One piece -/

theorem encode_excess {left : Nat} {piece : SegmentedItem} (hexcess : left < piece.size) :
    (⟨some (.length left)⟩ : Encoder).encode (.payload piece.item : Message k) =
      ⟨[], ⟨some (.length left)⟩, some (.invalidBody (.excess piece.size left))⟩ := by
  simp [encode, BodyWriter.write, Written.map, piece.length_flatten, hexcess]

theorem encode_fitting {left : Nat} {piece : SegmentedItem} (hfits : piece.size ≤ left) :
    (⟨some (.length left)⟩ : Encoder).encode (.payload piece.item : Message k) =
      ⟨piece.segments.flatten,
        if piece.isLast then {} else ⟨some (.length (left - piece.size))⟩,
        if piece.isLast && left - piece.size != 0 then
          some (.invalidBody (.shortfall (left - piece.size))) else none⟩ := by
  have hroom : ¬ left < piece.size := by omega
  cases hlast : piece.isLast <;>
    simp [encode, BodyWriter.write, Written.map, piece.length_flatten, hroom, hlast]

theorem encode_nothing (piece : SegmentedItem) :
    (⟨some .nothing⟩ : Encoder).encode (.payload piece.item : Message k) =
      ⟨[], if piece.isLast then {} else ⟨some .nothing⟩, none⟩ := by
  cases hlast : piece.isLast <;> simp [encode, BodyWriter.write, Written.map, hlast]

/-! ## Many pieces -/

theorem bodyOf_cons {encoder next : Encoder} {piece : SegmentedItem} {output : Bytes}
    {error? : Option WriteError}
    (h : encoder.encode (.payload piece.item : Message k) = ⟨output, next, error?⟩)
    (more : List SegmentedItem) :
    encoder.bodyOf k (piece :: more) = output ++ next.bodyOf k more ∧
      encoder.after (payloads (piece :: more) : List (Message k)) =
        next.after (payloads more : List (Message k)) := by
  simp [bodyOf, payloads, offer, after, h]

theorem bodyOf_idle (pieces : List SegmentedItem) :
    bodyOf k {} pieces = [] ∧ ({} : Encoder).after (payloads pieces : List (Message k)) = {} := by
  induction pieces with
  | nil => exact ⟨rfl, rfl⟩
  | cons piece more ih => exact ih

/-- Of an announced length the pieces that fit are written, and so much of it is left. -/
theorem bodyOf_length (left : Nat) (pieces : List SegmentedItem) :
    bodyOf k ⟨some (.length left)⟩ pieces = bytes (fitting left pieces) ∧
      (⟨some (.length left)⟩ : Encoder).after (payloads pieces : List (Message k)) =
        if (fitting left pieces).any isLast then {}
        else ⟨some (.length (left - (bytes (fitting left pieces)).length))⟩ := by
  -- For any rest of the length, which a piece that is too large leaves as it is.
  induction pieces generalizing left with
  | nil => exact ⟨rfl, rfl⟩
  | cons piece more ih =>
      unfold fitting
      by_cases hexcess : left < piece.size
      · obtain ⟨hbody, hafter⟩ := bodyOf_cons (k := k) (encode_excess hexcess) more
        rw [hbody, hafter, if_pos hexcess]
        exact ih left
      · have hfits : piece.size ≤ left := by omega
        obtain ⟨hbody, hafter⟩ := bodyOf_cons (k := k) (encode_fitting hfits) more
        rw [hbody, hafter, if_neg hexcess]
        by_cases hlast : piece.isLast = true
        · obtain ⟨hnone, hidle⟩ := bodyOf_idle (k := k) more
          simp only [hlast, if_true, hnone, hidle]
          simp [bytes, hlast]
        · obtain ⟨hrest, hreached⟩ := ih (left - piece.size)
          simp only [hlast, if_false, hrest, hreached, Bool.false_eq_true]
          simp [bytes, hlast, piece.length_flatten, Nat.sub_sub]

theorem bodyOf_nothing (pieces : List SegmentedItem) :
    bodyOf k ⟨some .nothing⟩ pieces = [] ∧
      (⟨some .nothing⟩ : Encoder).after (payloads pieces : List (Message k)) =
        if pieces.any isLast then {} else ⟨some .nothing⟩ := by
  induction pieces with
  | nil => exact ⟨rfl, rfl⟩
  | cons piece more ih =>
      obtain ⟨hbody, hafter⟩ := bodyOf_cons (k := k) (encode_nothing piece) more
      rw [hbody, hafter]
      cases hlast : piece.isLast with
      | true => simpa [hlast] using bodyOf_idle (k := k) more
      | false => simpa [hlast] using ih

/-! ## Bodies of messages -/

/-- An encoder that has taken these pieces of a body of `n` bytes and has written so much of it,
and what it makes of one more piece. -/
structure KeepsWithin (n : Nat) (taken : List SegmentedItem) (body : Bytes) (encoder : Encoder)
    (piece : SegmentedItem) (answer : Written Encoder) : Prop where
  body_eq : body = bytes taken
  within : body.length ≤ n
  underway : taken.any isLast = false → encoder = ⟨some (.length (n - body.length))⟩
  ended : taken.any isLast = true → answer = encoder.refuse .payloadWithoutHead
  excess : taken.any isLast = false → n < body.length + piece.size →
    answer = ⟨[], encoder, some (.invalidBody (.excess piece.size (n - body.length)))⟩
  fits : taken.any isLast = false → body.length + piece.size ≤ n →
    answer.output = piece.segments.flatten ∧ answer.state.isIdle = piece.isLast ∧
      (answer.error? = none ↔ (piece.isLast = true → body.length + piece.size = n))
  complete : answer.error? = none → piece.isLast = true → (body ++ answer.output).length = n

theorem keepsWithin_of_ended {n : Nat} {taken : List SegmentedItem}
    (hwithin : (bytes taken).length ≤ n) (hended : taken.any isLast = true)
    (piece : SegmentedItem) :
    ({} : Encoder).KeepsWithin n taken (bytes taken) piece
      (({} : Encoder).encode (.payload piece.item : Message k)) where
  body_eq := rfl
  within := hwithin
  underway hopen := by simp [hopen] at hended
  ended _ := rfl
  excess hopen := by simp [hopen] at hended
  fits hopen := by simp [hopen] at hended
  complete := nofun

theorem keepsWithin_of_underway {n : Nat} {taken : List SegmentedItem}
    (hwithin : (bytes taken).length ≤ n) (hopen : taken.any isLast = false)
    (piece : SegmentedItem) :
    KeepsWithin n taken (bytes taken) ⟨some (.length (n - (bytes taken).length))⟩ piece
      ((⟨some (.length (n - (bytes taken).length))⟩ : Encoder).encode
        (.payload piece.item : Message k)) := by
  have hended : taken.any isLast ≠ true := by simp [hopen]
  by_cases hexcess : n - (bytes taken).length < piece.size
  · rw [encode_excess hexcess]
    exact ⟨rfl, hwithin, fun _ => rfl, fun h => absurd h hended, fun _ _ => rfl,
      fun _ hfits => by omega, nofun⟩
  · have hfits : piece.size ≤ n - (bytes taken).length := by omega
    have hsize := piece.length_flatten
    -- Nothing is missing behind the last piece if and only if it fills the length.
    have herror : (piece.isLast = true →
        n - (bytes taken).length - piece.size = 0) ↔
          (piece.isLast = true → (bytes taken).length + piece.size = n) := by
      constructor
      · intro hfull hlast
        have hrest := hfull hlast
        omega
      · intro hfull hlast
        have htotal := hfull hlast
        omega
    rw [encode_fitting hfits]
    refine ⟨rfl, hwithin, fun _ => rfl, fun h => absurd h hended, fun _ hmore => by omega,
      fun _ _ => ⟨rfl, ?_, ?_⟩, ?_⟩
    · cases piece.isLast <;> rfl
    · simpa using herror
    · intro hnone hlast
      have htotal := herror.mp (by simpa using hnone) hlast
      simp only [List.length_append]
      omega

theorem keepsWithin (n : Nat) (pieces : List SegmentedItem) (piece : SegmentedItem) :
    let reached := (⟨some (.length n)⟩ : Encoder).after (payloads pieces : List (Message k))
    reached.KeepsWithin n (fitting n pieces) (bodyOf k ⟨some (.length n)⟩ pieces) piece
      (reached.encode (.payload piece.item : Message k)) := by
  obtain ⟨hbody, hreached⟩ := bodyOf_length (k := k) n pieces
  have hwithin := length_bytes_fitting_le n pieces
  rw [hbody, hreached]
  cases hended : (fitting n pieces).any isLast with
  | true => exact keepsWithin_of_ended hwithin hended piece
  | false => exact keepsWithin_of_underway hwithin hended piece

theorem opened_of_giveHead {encoder opened : Encoder} {h : Head k} {forced? : Option Framing}
    {output : Bytes} (hopened : encoder.giveHead h forced? = ⟨output, opened, none⟩) :
    opened = ⟨some (.ofFraming (forced?.getD h.announcedFraming))⟩ := by
  rw [giveHead_eq] at hopened
  cases hidle : encoder.isIdle with
  | false =>
      rw [encodeHead_of_busy hidle] at hopened
      cases hopened
  | true =>
      rw [eq_of_isIdle hidle] at hopened
      cases hwrite : h.write with
      | ok written =>
          rw [encodeHead_of_write hwrite] at hopened
          exact (congrArg Written.state hopened).symm
      | error error => simp [encodeHead, isIdle, hwrite] at hopened

/-- Behind a head that was written, let any pieces be offered, of which some may be refused, and
then one more. Of a body of an announced length those pieces are written that fit in what is left,
in order and up to the first last one, and so never more than the length; then every piece is
refused. A piece that does not fit is refused and changes nothing, and the last one is written
without an error only if it fills the length. Of a message without a body nothing is written. -/
theorem body_within_length {encoder opened : Encoder} {h : Head k} {forced? : Option Framing}
    {output : Bytes} (hopened : encoder.giveHead h forced? = ⟨output, opened, none⟩)
    (pieces : List SegmentedItem) (piece : SegmentedItem) :
    let framing := forced?.getD h.announcedFraming
    let reached := opened.after (payloads pieces : List (Message k))
    let answer := reached.encode (.payload piece.item : Message k)
    (∀ n, framing = .length n →
      reached.KeepsWithin n (fitting n pieces) (bodyOf k opened pieces) piece answer) ∧
    (framing = .empty → bodyOf k opened pieces = [] ∧ answer.output = [] ∧
      (pieces.any isLast = true → answer = reached.refuse .payloadWithoutHead) ∧
      (pieces.any isLast = false → answer.error? = none ∧
        answer.state.isIdle = piece.isLast)) := by
  obtain rfl := opened_of_giveHead hopened
  refine ⟨fun n hframing => ?_, fun hframing => ?_⟩
  · rw [hframing]
    exact keepsWithin n pieces piece
  · rw [hframing]
    obtain ⟨hbody, hreached⟩ := bodyOf_nothing (k := k) pieces
    simp only [BodyWriter.ofFraming, hbody, hreached, true_and]
    cases hended : pieces.any isLast with
    | true => exact ⟨rfl, fun _ => rfl, nofun⟩
    | false =>
        simp only [Bool.false_eq_true, if_false, encode_nothing]
        refine ⟨trivial, nofun, fun _ => ⟨trivial, ?_⟩⟩
        cases piece.isLast <;> rfl

/-- A body of five bytes in pieces of which the second is too large and the fourth comes too late.
Under the framing without a body the same pieces are dropped. -/
theorem body_within_length_of_late_piece :
    let h : Response := ({ line := .ok } : Response).announce (.length 5)
    let opened := (({} : Encoder).giveHead h none).state
    let bodiless := (({} : Encoder).giveHead h (some .empty)).state
    let pieces : List SegmentedItem := [⟨[ascii "h", [], ascii "el"], none⟩,
      ⟨[ascii "lo", ascii "!"], none⟩, ⟨[ascii "lo"], some ∅⟩]
    let late : SegmentedItem := ⟨[], none⟩
    let reached := opened.after (payloads pieces : List (Message .response))
    h.announcedFraming = .length 5 ∧ bodyOf .response opened pieces = ascii "hello" ∧
      reached.encode (.payload late.item : Message .response) =
        reached.refuse .payloadWithoutHead ∧
      bodyOf .response bodiless pieces = [] := by
  intro h opened bodiless pieces late reached
  have hframing : h.announcedFraming = .length 5 := by decide +kernel
  have hwritten : ({} : Encoder).giveHead h none =
      ⟨(({} : Encoder).giveHead h none).output, opened, none⟩ := rfl
  have hforced : ({} : Encoder).giveHead h (some .empty) =
      ⟨(({} : Encoder).giveHead h (some .empty)).output, bodiless, none⟩ := rfl
  have hkeeps := (body_within_length hwritten pieces late).1 5 hframing
  have hnothing := (body_within_length hforced pieces late).2 rfl
  exact ⟨hframing, hkeeps.body_eq.trans (by decide +kernel), hkeeps.ended (by decide +kernel),
    hnothing.1⟩

end Encoder

end HttpFraming
