import HttpFraming.Body.Reader
import HttpFraming.Framing
import HttpFraming.Source

/-!
# Decoding messages

A decoder reads heads and bodies in turn. Whether a message has a body may hang on
other messages, so the decoder asks a rule about each head it reads: on yes there is
none, whatever the fields say. After a failure it takes every byte and hands out
nothing.
-/

namespace HttpFraming

def statusRule (k : Kind) : HeadRule k Unit :=
  fun h _ => (h.isBodiless, ())

inductive DecoderPhase
  | head
  | body (reader : BodyReader)
  | failed
deriving DecidableEq

structure Decoder (k : Kind) where
  limits : Limits := {}
  phase : DecoderPhase := .head
deriving DecidableEq

structure Decoding (k : Kind) (ρ : Type) where
  message? : Option (Message k)
  decoder : Decoder k
  rule : ρ
  rest : Bytes

namespace Decoder

def isIdle (decoder : Decoder k) : Bool :=
  decoder.phase == .head

def fail (decoder : Decoder k) (head? : Option (Head k)) (cause : ReadError) (rule : ρ)
    (rest : Bytes) : Decoding k ρ :=
  ⟨some (.failure ⟨head?, cause, true⟩), { decoder with phase := .failed }, rule, rest⟩

def enter (decoder : Decoder k) (ask : HeadRule k ρ) (h : Head k) (rule : ρ) (rest : Bytes) :
    Decoding k ρ :=
  let (bodiless, rule) := ask h rule
  match h.frame decoder.limits bodiless with
  | (h, .ok framing) =>
      ⟨some (.header h), { decoder with phase := .body (.ofFraming framing) }, rule, rest⟩
  | (h, .error cause) => decoder.fail (some h) cause rule rest

def readHead (decoder : Decoder k) (ask : HeadRule k ρ) (ended : Bool) (rule : ρ)
    (bytes : Bytes) : Decoding k ρ :=
  match Head.read k decoder.limits bytes with
  | ⟨.ok (some h), rest⟩ => decoder.enter ask h rule rest
  | ⟨.ok none, rest⟩ =>
      if ended && !bytes.isEmpty then decoder.fail none .prematureEnd rule rest
      else ⟨none, decoder, rule, rest⟩
  | ⟨.error cause, rest⟩ => decoder.fail none cause rule rest

def readBody (decoder : Decoder k) (reader : BodyReader) (ended : Bool) (rule : ρ)
    (bytes : Bytes) : Decoding k ρ :=
  match reader.read ended bytes with
  | ⟨.ok (some item), next, rest⟩ =>
      let phase := if item.isLast then .head else .body next
      ⟨some (.payload item), { decoder with phase }, rule, rest⟩
  | ⟨.ok none, next, rest⟩ => ⟨none, { decoder with phase := .body next }, rule, rest⟩
  | ⟨.error cause, _, rest⟩ => decoder.fail none cause rule rest

/-- The next message part; `ended` says that these are the last bytes. Between
messages the end of the bytes is no failure. -/
def decode (decoder : Decoder k) (ask : HeadRule k ρ) (ended : Bool) (rule : ρ)
    (bytes : Bytes) : Decoding k ρ :=
  match decoder.phase with
  | .failed => ⟨none, decoder, rule, []⟩
  | .body reader => decoder.readBody reader ended rule bytes
  | .head =>
      if ended && bytes.isEmpty then ⟨none, decoder, rule, bytes⟩
      else decoder.readHead ask ended rule bytes

/-! ## Every message uses something up -/

/-- How many message parts a decoder can hand out without another byte, at most. -/
def weight (decoder : Decoder k) : Nat :=
  match decoder.phase with
  | .head => 1
  | .body _ => 2
  | .failed => 0

theorem enter_weight_le (decoder : Decoder k) (ask : HeadRule k ρ) (h : Head k) (rule : ρ)
    (rest : Bytes) :
    (decoder.enter ask h rule rest).decoder.weight ≤ 2 ∧
      (decoder.enter ask h rule rest).rest = rest := by
  unfold enter
  dsimp only
  split <;> simp [weight, fail]

theorem readBody_lt {decoder : Decoder k} {reader : BodyReader} {ended : Bool} {rule : ρ}
    {bytes : Bytes} {message : Message k}
    (h : (decoder.readBody reader ended rule bytes).message? = some message) :
    2 * (decoder.readBody reader ended rule bytes).rest.length +
        (decoder.readBody reader ended rule bytes).decoder.weight <
      2 * bytes.length + 2 := by
  have hle := reader.read_rest_le ended bytes
  unfold readBody at h ⊢
  split
  · rename_i item next rest hread
    rw [hread] at hle
    cases item with
    | chunk data =>
        have hlt := @BodyReader.read_chunk_lt reader ended bytes data (by rw [hread])
        rw [hread] at hlt
        simp only [weight, Item.isLast] at hlt ⊢
        simp only [Bool.false_eq_true, if_false]
        omega
    | last data trailers =>
        simp only [weight, Item.isLast] at hle ⊢
        simp only [if_true]
        omega
  · rename_i next rest hread
    simp [hread] at h
  · rename_i cause next rest hread
    rw [hread] at hle
    simp only [fail, weight] at hle ⊢
    omega

theorem readHead_lt {decoder : Decoder k} {ask : HeadRule k ρ} {ended : Bool} {rule : ρ}
    {bytes : Bytes} {message : Message k}
    (h : (decoder.readHead ask ended rule bytes).message? = some message) :
    2 * (decoder.readHead ask ended rule bytes).rest.length +
        (decoder.readHead ask ended rule bytes).decoder.weight <
      2 * bytes.length + 1 := by
  have hle := Head.read_rest_le k decoder.limits bytes
  unfold readHead at h ⊢
  split
  · rename_i head rest hread
    have hlt := @Head.read_rest_lt k decoder.limits bytes head (by rw [hread])
    rw [hread] at hlt
    obtain ⟨hentered, hrest⟩ := decoder.enter_weight_le ask head rule rest
    rw [hrest]
    simp only at hlt
    omega
  · rename_i rest hread
    rw [hread] at hle
    split
    · simp only [fail, weight] at hle ⊢
      omega
    · rename_i hmore
      simp [hread, hmore] at h
  · rename_i cause rest hread
    rw [hread] at hle
    simp only [fail, weight] at hle ⊢
    omega

theorem decode_lt {decoder : Decoder k} {ask : HeadRule k ρ} {ended : Bool} {rule : ρ}
    {bytes : Bytes} {message : Message k}
    (h : (decoder.decode ask ended rule bytes).message? = some message) :
    2 * (decoder.decode ask ended rule bytes).rest.length +
        (decoder.decode ask ended rule bytes).decoder.weight <
      2 * bytes.length + decoder.weight := by
  unfold decode at h ⊢
  split
  · rename_i hphase
    simp [hphase] at h
  · rename_i reader hphase
    have hweight : decoder.weight = 2 := by simp [weight, hphase]
    simp only [hphase] at h
    rw [hweight]
    exact readBody_lt h
  · rename_i hphase
    have hweight : decoder.weight = 1 := by simp [weight, hphase]
    simp only [hphase] at h
    rw [hweight]
    split
    · rename_i hended
      simp [hended] at h
    · rename_i hended
      simp only [hended, Bool.false_eq_true, if_false] at h
      exact readHead_lt h

def source (ask : HeadRule k ρ) : Source (Decoder k × ρ) (Message k) where
  pull ended state bytes :=
    let ⟨message?, decoder, rule, rest⟩ := state.1.decode ask ended state.2 bytes
    ⟨.ok message?, (decoder, rule), rest⟩
  weight state := state.1.weight
  pull_lt _ _ _ _ h := decode_lt (Except.ok.inj h)

end Decoder

end HttpFraming
