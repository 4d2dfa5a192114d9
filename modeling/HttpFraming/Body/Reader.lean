import HttpFraming.Body.Chunked
import HttpFraming.Framing
import HttpFraming.Head.Reader
import HttpFraming.Message

/-!
# Reading bodies

A body is read piece by piece: data is handed out as soon as it is there, and no
piece but the last is empty. Only a body that runs until the connection closes can
end with it.
-/

namespace HttpFraming

inductive BodyReader
  | length (remaining : Nat)
  | chunked (place : ChunkPlace)
  | untilClose
  | empty
deriving DecidableEq

structure BodyReading where
  answer : Except ReadError (Option Item)
  next : BodyReader
  rest : Bytes

/-- Takes a trailer section, which ends a chunked body. A section that is there as
a whole is taken whatever its size. -/
def Trailers.read (bytes : Bytes) : Reading Fields :=
  match Grammar.fieldLines maxTrailerFields bytes with
  | .invalid fault => ⟨.error (fault.toReadError maxTrailerFields), bytes⟩
  | .incomplete =>
      if maxTrailerBytes < bytes.length then
        ⟨.error (.headTooLarge bytes.length maxTrailerBytes), bytes⟩
      else ⟨.ok none, bytes⟩
  | .complete raw rest =>
      match Fields.ofRaw raw with
      | .error error => ⟨.error error, bytes⟩
      | .ok fields => ⟨.ok (some fields), rest⟩

theorem Trailers.read_rest_le (bytes : Bytes) :
    (Trailers.read bytes).rest.length ≤ bytes.length := by
  unfold Trailers.read
  have hleaves := Grammar.fieldLines_leaves maxTrailerFields bytes
  split
  · exact Nat.le_refl _
  · split <;> exact Nat.le_refl _
  · rename_i raw rest hscan
    have hrest := hleaves _ _ hscan
    split
    · exact Nat.le_refl _
    · dsimp only
      omega

namespace ChunkPlace

def readPiece (place : ChunkPlace) (bytes : Bytes) : BodyReading :=
  match place with
  | line _ => ⟨.ok none, .chunked place, bytes⟩
  | data remaining _ =>
      if bytes.isEmpty then ⟨.ok none, .chunked place, bytes⟩
      else
        let piece := bytes.take remaining
        let left := remaining - piece.length
        let next := if h : 0 < left then data left h else line .dataEnd
        ⟨.ok (some (.chunk piece)), .chunked next, bytes.drop remaining⟩
  | trailers =>
      let ⟨answer, rest⟩ := Trailers.read bytes
      ⟨answer.map (·.map fun fields => .last [] fields), .chunked trailers, rest⟩

def read (place : ChunkPlace) (bytes : Bytes) : BodyReading :=
  match place with
  | line between =>
      match between.advance bytes with
      | (.error fault, rest) => ⟨.error (.invalidBody fault), .chunked place, rest⟩
      | (.ok place, rest) => place.readPiece rest
  | place => place.readPiece bytes

theorem readPiece_rest_le (place : ChunkPlace) (bytes : Bytes) :
    (place.readPiece bytes).rest.length ≤ bytes.length := by
  unfold readPiece
  split
  · exact Nat.le_refl _
  · split
    · exact Nat.le_refl _
    · simp
  · exact Trailers.read_rest_le bytes

theorem readPiece_chunk_lt {place : ChunkPlace} {bytes data : Bytes}
    (h : (place.readPiece bytes).answer = .ok (some (.chunk data))) :
    (place.readPiece bytes).rest.length < bytes.length := by
  unfold readPiece at h ⊢
  split
  · simp at h
  · rename_i remaining hpos
    dsimp only at h ⊢
    split
    · rename_i hempty
      simp [hempty] at h
    · rename_i hempty
      have hlength : 0 < bytes.length := by
        cases bytes with
        | nil => simp at hempty
        | cons b rest => simp
      simp only [List.length_drop]
      omega
  · dsimp only at h
    cases hanswer : (Trailers.read bytes).answer with
    | error error => simp [hanswer, Except.map] at h
    | ok fields? => cases fields? <;> simp [hanswer, Except.map] at h

theorem read_rest_le (place : ChunkPlace) (bytes : Bytes) :
    (place.read bytes).rest.length ≤ bytes.length := by
  unfold read
  split
  · rename_i between
    have hadvance := between.advance_rest_le bytes
    split
    · rename_i hline
      simpa [hline] using hadvance
    · rename_i hline
      rw [hline] at hadvance
      exact Nat.le_trans (readPiece_rest_le _ _) hadvance
  · exact readPiece_rest_le _ _

theorem read_chunk_lt {place : ChunkPlace} {bytes data : Bytes}
    (h : (place.read bytes).answer = .ok (some (.chunk data))) :
    (place.read bytes).rest.length < bytes.length := by
  unfold read at h ⊢
  split
  · rename_i between
    have hadvance := between.advance_rest_le bytes
    dsimp only at h ⊢
    split
    · rename_i hline
      simp [hline] at h
    · rename_i hline
      rw [hline] at hadvance
      simp only [hline] at h
      exact Nat.lt_of_lt_of_le (readPiece_chunk_lt h) hadvance
  · rename_i hplace
    cases place with
    | line between => exact absurd rfl (hplace between)
    | data remaining hpos => exact readPiece_chunk_lt h
    | trailers => exact readPiece_chunk_lt h

end ChunkPlace

namespace BodyReader

def ofFraming : Framing → BodyReader
  | .length n => length n
  | .chunked => chunked (.line .start)
  | .empty => empty
  | .untilClose => untilClose

def readMore (reader : BodyReader) (bytes : Bytes) : BodyReading :=
  match reader with
  | length 0 => ⟨.ok (some .done), reader, bytes⟩
  | length remaining =>
      if bytes.isEmpty then ⟨.ok none, reader, bytes⟩
      else
        let piece := bytes.take remaining
        ⟨.ok (some (.chunk piece)), length (remaining - piece.length), bytes.drop remaining⟩
  | chunked place => place.read bytes
  | untilClose =>
      if bytes.isEmpty then ⟨.ok none, reader, bytes⟩
      else ⟨.ok (some (.chunk bytes)), reader, []⟩
  | empty => ⟨.ok (some .done), reader, bytes⟩

/-- What it means that a body reader waits for bytes that will not come. -/
def atEnd (reader : BodyReader) : Except ReadError (Option Item) :=
  match reader with
  | untilClose => .ok (some .done)
  | _ => .error .prematureEnd

/-- The next piece; `ended` says that these are the last bytes. -/
def read (reader : BodyReader) (ended : Bool) (bytes : Bytes) : BodyReading :=
  match reader.readMore bytes with
  | ⟨.ok none, next, rest⟩ => ⟨if ended then reader.atEnd else .ok none, next, rest⟩
  | reading => reading

theorem readMore_rest_le (reader : BodyReader) (bytes : Bytes) :
    (reader.readMore bytes).rest.length ≤ bytes.length := by
  unfold readMore
  split
  · exact Nat.le_refl _
  · split <;> simp
  · exact ChunkPlace.read_rest_le _ _
  · split <;> simp
  · exact Nat.le_refl _

theorem readMore_chunk_lt {reader : BodyReader} {bytes data : Bytes}
    (h : (reader.readMore bytes).answer = .ok (some (.chunk data))) :
    (reader.readMore bytes).rest.length < bytes.length := by
  have hpos : ¬bytes.isEmpty = true → 0 < bytes.length := by
    intro hempty
    cases bytes with
    | nil => simp at hempty
    | cons b rest => simp
  unfold readMore at h ⊢
  split
  · simp [Item.done] at h
  · rename_i remaining hne
    dsimp only at h ⊢
    split
    · rename_i hempty
      simp [hempty] at h
    · rename_i hempty
      have hlength := hpos hempty
      simp only [List.length_drop]
      have hremaining : 0 < remaining := Nat.pos_of_ne_zero hne
      omega
  · exact ChunkPlace.read_chunk_lt h
  · dsimp only at h ⊢
    split
    · rename_i hempty
      simp [hempty] at h
    · rename_i hempty
      simpa using hpos hempty
  · simp [Item.done] at h

theorem read_rest_le (reader : BodyReader) (ended : Bool) (bytes : Bytes) :
    (reader.read ended bytes).rest.length ≤ bytes.length := by
  have hmore := reader.readMore_rest_le bytes
  unfold read
  split
  · rename_i hreading
    simpa [hreading] using hmore
  · exact hmore

theorem read_chunk_lt {reader : BodyReader} {ended : Bool} {bytes data : Bytes}
    (h : (reader.read ended bytes).answer = .ok (some (.chunk data))) :
    (reader.read ended bytes).rest.length < bytes.length := by
  unfold read at h ⊢
  split
  · rename_i next rest hreading
    simp only [hreading] at h
    cases reader <;> cases ended <;> simp [atEnd, Item.done] at h
  · rename_i hne
    split at h
    · rename_i next rest hreading
      exact absurd hreading (hne next rest)
    · exact readMore_chunk_lt h

end BodyReader

end HttpFraming
