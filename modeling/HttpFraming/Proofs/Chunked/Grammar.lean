import HttpFraming.Proofs.RoundTrip.Pieces

/-!
# The grammar of chunked bodies

What a chunked body is, said without a reader: `IsSizeLine`, `IsChunks` and `IsChunkedBody`.
`ChunkLine.Leads` and `ChunkPlace.Leads` say what may still come at a place in such a body. Each
step of a line takes one byte off what may come, so a line is followed to its end through just
that, and fails where nothing may come any more: `ChunkLine.advance_iff`. Nowhere between the
data is every way out closed: `ChunkPlace.exists_leads`.
-/

namespace HttpFraming

open Bytes

/-! ## The grammar -/

def IsExtensionText (text : Bytes) : Prop :=
  ∀ b ∈ text, b ≠ cr ∧ b ≠ lf

inductive IsExtension : Bytes → Prop
  | absent : IsExtension []
  | present (text : Bytes) (htext : IsExtensionText text) : IsExtension (59 :: text)

def IsSizeEnd (bytes : Bytes) : Prop :=
  ∃ blanks extension, bytes = blanks ++ (extension ++ crlf) ∧
    (∀ b ∈ blanks, isBlank b = true) ∧ IsExtension extension

/-- A size line: the hexadecimal digits of a size below the word bound, blanks, an extension and
a line end. -/
def IsSizeLine (n : Nat) (bytes : Bytes) : Prop :=
  ∃ digits behind, bytes = digits ++ behind ∧ Numeral.read? 16 digits = some n ∧
    n < Numeral.wordBound ∧ IsSizeEnd behind

/-- Chunks and a size line of zero, with the data of the chunks. There is data in each chunk,
since a size of zero ends the chunks. -/
inductive IsChunks : Bytes → Bytes → Prop
  | last {line : Bytes} (hline : IsSizeLine 0 line) : IsChunks line []
  | chunk {line data more rest : Bytes} (hdata : data ≠ []) (hline : IsSizeLine data.length line)
      (hmore : IsChunks more rest) :
      IsChunks (line ++ (data ++ (crlf ++ more))) (data ++ rest)

/-- A trailer section, and no more than that, from which these fields are read. -/
def IsTrailerSection (lines : Bytes) (trailers : Fields) : Prop :=
  ∃ raw, Grammar.fieldLines maxTrailerFields lines = .complete raw [] ∧
    Fields.ofRaw raw = .ok trailers

def IsChunkedBody (bytes data : Bytes) (trailers : Fields) : Prop :=
  ∃ chunks lines, bytes = chunks ++ lines ∧ IsChunks chunks data ∧
    IsTrailerSection lines trailers

theorem isSizeEnd_crlf : IsSizeEnd crlf :=
  ⟨[], [], rfl, by simp, .absent⟩

theorem isSizeLine_digit {digit : UInt8} {n : Nat} (hdigit : Numeral.digit? 16 digit = some n)
    (hword : n < Numeral.wordBound) : IsSizeLine n (digit :: crlf) :=
  ⟨[digit], crlf, rfl, by simp [Numeral.read?, Numeral.push?, hdigit], hword, isSizeEnd_crlf⟩

theorem isSizeLine_zero : IsSizeLine 0 (48 :: crlf) :=
  isSizeLine_digit (by decide) (by decide)

/-! ## Lines -/

namespace ChunkLine

/-- What may still come in a line, up to its end, so that a chunk of this size begins there. -/
def Leads : ChunkLine → Nat → Bytes → Prop
  | size n?, n, bytes =>
      ∃ digits behind, bytes = digits ++ behind ∧
        digits.foldlM (Numeral.push? 16) (n?.getD 0) = some n ∧ (digits = [] → n? = some n) ∧
        (digits ≠ [] → n < Numeral.wordBound) ∧ IsSizeEnd behind
  | blanks m, n, bytes => m = n ∧ IsSizeEnd bytes
  | extension m, n, bytes => m = n ∧ ∃ text, bytes = text ++ crlf ∧ IsExtensionText text
  | sizeEnd m, n, bytes => m = n ∧ bytes = [lf]
  | dataEnd, n, bytes => ∃ line, bytes = crlf ++ line ∧ IsSizeLine n line
  | dataLineFeed, n, bytes => ∃ line, bytes = lf :: line ∧ IsSizeLine n line

theorem start_leads_iff {n : Nat} {bytes : Bytes} : start.Leads n bytes ↔ IsSizeLine n bytes := by
  constructor
  · rintro ⟨digits, behind, hsplit, hdigits, hnil, hword, hend⟩
    have hne : digits ≠ [] := by
      intro hempty
      cases hnil hempty
    refine ⟨digits, behind, hsplit, ?_, hword hne, hend⟩
    simpa [Numeral.read?, hne] using hdigits
  · rintro ⟨digits, behind, hsplit, hread, hword, hend⟩
    have hne : digits ≠ [] := by
      rintro rfl
      cases hread
    refine ⟨digits, behind, hsplit, ?_, fun hnil => absurd hnil hne, fun _ => hword, hend⟩
    simpa [Numeral.read?, hne] using hread

theorem isExtensionText_cons {b : UInt8} {bytes : Bytes} :
    (∃ text, b :: bytes = text ++ crlf ∧ IsExtensionText text) ↔
      b = cr ∧ bytes = [lf] ∨
        b ≠ cr ∧ b ≠ lf ∧ ∃ text, bytes = text ++ crlf ∧ IsExtensionText text := by
  constructor
  · rintro ⟨text, hsplit, htext⟩
    cases text with
    | nil =>
        cases hsplit
        exact .inl ⟨rfl, rfl⟩
    | cons c text =>
        cases hsplit
        obtain ⟨hb, htext⟩ := List.forall_mem_cons.mp htext
        exact .inr ⟨hb.1, hb.2, text, rfl, htext⟩
  · rintro (⟨rfl, rfl⟩ | ⟨hcr, hlf, text, rfl, htext⟩)
    · exact ⟨[], rfl, by simp [IsExtensionText]⟩
    · exact ⟨b :: text, rfl, List.forall_mem_cons.mpr ⟨⟨hcr, hlf⟩, htext⟩⟩

theorem blanks_leads_cons {m n : Nat} {b : UInt8} {bytes : Bytes} :
    (blanks m).Leads n (b :: bytes) ↔ ∃ next, afterSize m b = .ok next ∧ next.Leads n bytes := by
  constructor
  · rintro ⟨rfl, blanks, extension, hsplit, hblanks, hextension⟩
    cases blanks with
    | cons c blanks =>
        cases hsplit
        obtain ⟨hblank, hblanks⟩ := List.forall_mem_cons.mp hblanks
        exact ⟨.blanks m, by simp [afterSize, hblank], rfl, blanks, extension, rfl, hblanks,
          hextension⟩
    | nil =>
        cases hextension with
        | absent =>
            cases hsplit
            exact ⟨sizeEnd m, rfl, rfl, rfl⟩
        | present text htext =>
            cases hsplit
            exact ⟨.extension m, rfl, rfl, text, rfl, htext⟩
  · rintro ⟨next, hafter, hleads⟩
    unfold afterSize at hafter
    split at hafter
    · rename_i hblank
      cases hafter
      obtain ⟨rfl, blanks, extension, rfl, hblanks, hextension⟩ := hleads
      exact ⟨rfl, b :: blanks, extension, rfl, List.forall_mem_cons.mpr ⟨hblank, hblanks⟩,
        hextension⟩
    · split at hafter
      · rename_i hsemicolon
        cases hafter
        obtain ⟨rfl, text, rfl, htext⟩ := hleads
        exact ⟨rfl, [], 59 :: text, by rw [hsemicolon]; rfl, by simp, .present text htext⟩
      · split at hafter
        · rename_i hcr
          cases hafter
          obtain ⟨rfl, rfl⟩ := hleads
          exact ⟨rfl, [], [], by rw [hcr]; rfl, by simp, .absent⟩
        · cases hafter

theorem push?_of_afterSize {b : UInt8} {n : Nat} {next : ChunkLine} (h : afterSize n b = .ok next)
    (acc : Nat) : Numeral.push? 16 acc b = none := by
  have hdigit : ∀ b, isBlank b = true ∨ b = 59 ∨ b = cr → Numeral.digit? 16 b = none := by
    apply forall_byte
    decide +kernel
  rw [Numeral.push?, hdigit b, Option.map_none]
  unfold afterSize at h
  split at h
  · exact .inl ‹_›
  · split at h
    · exact .inr (.inl ‹_›)
    · split at h
      · exact .inr (.inr ‹_›)
      · cases h

theorem size_leads_cons {n? : Option Nat} {n : Nat} {b : UInt8} {bytes : Bytes} :
    (size n?).Leads n (b :: bytes) ↔
      (∃ m, Numeral.push? 16 (n?.getD 0) b = some m ∧ m < Numeral.wordBound ∧
        (size (some m)).Leads n bytes) ∨
      ∃ m, n? = some m ∧ ∃ next, afterSize m b = .ok next ∧ next.Leads n bytes := by
  constructor
  · rintro ⟨digits, behind, hsplit, hdigits, hnil, hword, hend⟩
    cases digits with
    | nil =>
        cases hsplit
        exact .inr ⟨n, hnil rfl, blanks_leads_cons.mp ⟨rfl, hend⟩⟩
    | cons c digits =>
        cases hsplit
        have hword := hword (List.cons_ne_nil b digits)
        rw [List.foldlM_cons] at hdigits
        cases hpush : Numeral.push? 16 (n?.getD 0) b with
        | none => simp [hpush] at hdigits
        | some m =>
            rw [hpush, Option.bind_eq_bind, Option.bind_some] at hdigits
            have hm : m ≤ n := Numeral.le_of_foldlM (by decide) hdigits
            refine .inl ⟨m, rfl, by omega, digits, behind, rfl, hdigits, ?_, fun _ => hword, hend⟩
            rintro rfl
            exact hdigits
  · rintro (⟨m, hpush, hm, digits, behind, rfl, hdigits, hnil, hword, hend⟩ | ⟨m, rfl, hnext⟩)
    · refine ⟨b :: digits, behind, rfl, ?_, (fun h => nomatch h), fun _ => ?_, hend⟩
      · rw [List.foldlM_cons, hpush]
        exact hdigits
      · by_cases hempty : digits = []
        · cases hnil hempty
          exact hm
        · exact hword hempty
    · obtain ⟨rfl, hend⟩ := blanks_leads_cons.mpr hnext
      exact ⟨[], b :: bytes, rfl, rfl, fun _ => rfl, fun h => absurd rfl h, hend⟩

theorem not_leads_nil (line : ChunkLine) (n : Nat) : ¬ line.Leads n [] := by
  have hend : ¬ IsSizeEnd [] := by
    rintro ⟨blanks, extension, hsplit, -⟩
    simp [crlf] at hsplit
  cases line with
  | size n? =>
      rintro ⟨digits, behind, hsplit, -, -, -, hbehind⟩
      rw [(List.append_eq_nil_iff.mp hsplit.symm).2] at hbehind
      exact hend hbehind
  | blanks m => exact fun h => hend h.2
  | extension m =>
      rintro ⟨-, text, hsplit, -⟩
      simp [crlf] at hsplit
  | sizeEnd m => exact fun h => nomatch h.2
  | dataEnd =>
      rintro ⟨line, hsplit, -⟩
      cases hsplit
  | dataLineFeed =>
      rintro ⟨line, hsplit, -⟩
      cases hsplit

theorem enter_ne_line (n : Nat) (line : ChunkLine) : enter n ≠ .line line := by
  unfold enter
  split <;> simp

theorem enter_inj {m n : Nat} (h : enter m = enter n) : m = n := by
  unfold enter at h
  split at h <;> split at h
  · exact (ChunkPlace.data.inj h)
  · cases h
  · cases h
  · omega

/-- A step that only leads on within its line. -/
theorem stays_iff {n : Nat} {bytes : Bytes} {stepped : Except BodyFault ChunkLine} :
    (∃ next, stepped = .ok next ∧ next.Leads n bytes) ↔
      (∃ next, stepped.map ChunkPlace.line = .ok (.line next) ∧ next.Leads n bytes) ∨
        stepped.map ChunkPlace.line = .ok (enter n) ∧ bytes = [] := by
  cases stepped with
  | error fault => simp [Except.map]
  | ok next => simp [Except.map, (enter_ne_line n next).symm]

theorem size_step_iff {n? : Option Nat} {n : Nat} {b : UInt8} {bytes : Bytes} :
    (ChunkLine.size n?).Leads n (b :: bytes) ↔
      (∃ next, (ChunkLine.size n?).step b = .ok (.line next) ∧ next.Leads n bytes) ∨
        (ChunkLine.size n?).step b = .ok (enter n) ∧ bytes = [] := by
  rw [size_leads_cons]
  unfold step
  dsimp only
  cases hpush : Numeral.push? 16 (n?.getD 0) b with
  | some m =>
      have hdigit : ∀ {k next}, afterSize k b ≠ .ok next := by
        intro k next hafter
        cases hpush.symm.trans (push?_of_afterSize hafter (n?.getD 0))
      by_cases hm : m < Numeral.wordBound
      · simp [hm, hdigit, (enter_ne_line n _).symm]
      · simp [hm, hdigit]
  | none =>
      cases n? with
      | none => simp
      | some m => simpa using stays_iff

/-- Each step takes one byte off what may come. -/
theorem leads_cons {line : ChunkLine} {n : Nat} {b : UInt8} {bytes : Bytes} :
    line.Leads n (b :: bytes) ↔
      (∃ next, line.step b = .ok (.line next) ∧ next.Leads n bytes) ∨
        line.step b = .ok (enter n) ∧ bytes = [] := by
  cases line with
  | size n? => exact size_step_iff
  | blanks m =>
      rw [blanks_leads_cons, step]
      exact stays_iff
  | extension m =>
      simp only [Leads, step, isExtensionText_cons]
      by_cases hcr : b = cr
      · simp [hcr, (enter_ne_line n _).symm]
      · by_cases hlf : b = lf
        · simp [hlf, show lf ≠ cr by decide]
        · simp [hcr, hlf, (enter_ne_line n _).symm]
  | sizeEnd m =>
      by_cases hlf : b = lf
      · simp only [Leads, step, hlf, if_true, Except.ok.injEq, List.cons.injEq, true_and]
        constructor
        · rintro ⟨rfl, rfl⟩
          exact .inr ⟨rfl, rfl⟩
        · rintro (⟨next, henter, -⟩ | ⟨henter, rfl⟩)
          · exact absurd henter (enter_ne_line m next)
          · exact ⟨enter_inj henter, rfl⟩
      · simp [Leads, step, hlf]
  | dataEnd =>
      by_cases hcr : b = cr
      · simp [Leads, step, hcr, crlf, (enter_ne_line n _).symm]
      · simp [Leads, step, hcr, crlf]
  | dataLineFeed =>
      show (∃ line, b :: bytes = lf :: line ∧ IsSizeLine n line) ↔ _
      by_cases hlf : b = lf
      · simp [step, hlf, start_leads_iff, (enter_ne_line n _).symm]
      · simp [step, hlf]

/-- A line is followed to its end through just what may come in it. -/
theorem advance_iff {line : ChunkLine} {n : Nat} {bytes rest : Bytes} :
    line.advance bytes = (.ok (enter n), rest) ↔
      ∃ head, bytes = head ++ rest ∧ line.Leads n head := by
  induction bytes generalizing line with
  | nil =>
      simp only [advance, Prod.mk.injEq, Except.ok.injEq, (enter_ne_line n line).symm, false_and,
        false_iff]
      rintro ⟨head, hsplit, hhead⟩
      rw [(List.append_eq_nil_iff.mp hsplit.symm).1] at hhead
      exact not_leads_nil line n hhead
  | cons b more ih =>
      have hfirst : (∃ head, b :: more = head ++ rest ∧ line.Leads n head) ↔
          ∃ head, more = head ++ rest ∧ line.Leads n (b :: head) := by
        constructor
        · rintro ⟨head, hsplit, hhead⟩
          cases head with
          | nil => exact absurd hhead (not_leads_nil line n)
          | cons c head =>
              cases hsplit
              exact ⟨head, rfl, hhead⟩
        · rintro ⟨head, rfl, hhead⟩
          exact ⟨b :: head, rfl, hhead⟩
      have hdone : ∀ place, place = enter n ∧ more = rest ↔
          ∃ head, more = head ++ rest ∧ place = enter n ∧ head = [] := by
        intro place
        constructor
        · rintro ⟨hplace, rfl⟩
          exact ⟨[], rfl, hplace, rfl⟩
        · rintro ⟨head, hsplit, hplace, rfl⟩
          exact ⟨hplace, hsplit⟩
      simp only [hfirst, leads_cons, advance]
      cases hstep : line.step b with
      | error fault => simp
      | ok place =>
          cases place with
          | line next => simp [ih, (enter_ne_line n next).symm]
          | data remaining pos => simpa using hdone (.data remaining pos)
          | trailers => simpa using hdone .trailers

/-- Every line can be brought to its end. -/
theorem exists_leads (line : ChunkLine) : ∃ n head, line.Leads n head := by
  cases line with
  | size n? =>
      cases n? with
      | none => exact ⟨0, 48 :: crlf, start_leads_iff.mpr isSizeLine_zero⟩
      | some n => exact ⟨n, crlf, [], crlf, rfl, rfl, fun _ => rfl, fun h => absurd rfl h,
          isSizeEnd_crlf⟩
  | blanks n => exact ⟨n, crlf, rfl, isSizeEnd_crlf⟩
  | extension n => exact ⟨n, crlf, rfl, [], rfl, by simp [IsExtensionText]⟩
  | sizeEnd n => exact ⟨n, [lf], rfl, rfl⟩
  | dataEnd => exact ⟨0, crlf ++ (48 :: crlf), 48 :: crlf, rfl, isSizeLine_zero⟩
  | dataLineFeed => exact ⟨0, lf :: (48 :: crlf), 48 :: crlf, rfl, isSizeLine_zero⟩

end ChunkLine

/-! ## Places -/

namespace ChunkPlace

/-- What may still come at a place, up to the trailers, with the data in it. -/
inductive Leads : ChunkPlace → Bytes → Bytes → Prop
  | trailers : Leads trailers [] []
  | line {between : ChunkLine} {n : Nat} {head more rest : Bytes} (hhead : between.Leads n head)
      (hmore : Leads (ChunkLine.enter n) more rest) : Leads (line between) (head ++ more) rest
  | data {piece more rest : Bytes} (hpos : 0 < piece.length)
      (hmore : Leads (line .dataEnd) more rest) :
      Leads (data piece.length hpos) (piece ++ more) (piece ++ rest)

theorem line_leads_iff {between : ChunkLine} {front rest : Bytes} :
    (line between).Leads front rest ↔
      ∃ n head more, front = head ++ more ∧ between.Leads n head ∧
        (ChunkLine.enter n).Leads more rest := by
  constructor
  · intro h
    cases h with
    | line hhead hmore => exact ⟨_, _, _, rfl, hhead, hmore⟩
  · rintro ⟨n, head, more, rfl, hhead, hmore⟩
    exact .line hhead hmore

theorem data_leads_iff {remaining : Nat} {hpos : 0 < remaining} {front rest : Bytes} :
    (data remaining hpos).Leads front rest ↔
      ∃ piece more rest', piece.length = remaining ∧ front = piece ++ more ∧
        rest = piece ++ rest' ∧ (line .dataEnd).Leads more rest' := by
  constructor
  · intro h
    cases h with
    | data hpos hmore => exact ⟨_, _, _, rfl, rfl, rfl, hmore⟩
  · rintro ⟨piece, more, rest', rfl, rfl, rfl, hmore⟩
    exact .data hpos hmore

theorem trailers_leads_iff {front rest : Bytes} :
    trailers.Leads front rest ↔ front = [] ∧ rest = [] := by
  constructor
  · intro h
    cases h
    exact ⟨rfl, rfl⟩
  · rintro ⟨rfl, rfl⟩
    exact .trailers

theorem eq_enter {place : ChunkPlace} (h : ∀ between, place ≠ line between) :
    ∃ n, place = ChunkLine.enter n := by
  cases place with
  | line between => exact absurd rfl (h between)
  | data remaining pos => exact ⟨remaining, by rw [ChunkLine.enter, dif_pos pos]⟩
  | trailers => exact ⟨0, rfl⟩

theorem enter_leads_iff {n : Nat} {front rest : Bytes} :
    (ChunkLine.enter n).Leads front rest ↔
      n = 0 ∧ front = [] ∧ rest = [] ∨
        0 < n ∧ ∃ piece more rest', piece.length = n ∧ front = piece ++ more ∧
          rest = piece ++ rest' ∧ (line .dataEnd).Leads more rest' := by
  unfold ChunkLine.enter
  split
  · rename_i hpos
    rw [data_leads_iff]
    simp [hpos, Nat.ne_of_gt hpos]
  · rename_i hzero
    rw [trailers_leads_iff]
    simp [hzero]
    omega

theorem dataEnd_leads_iff {front rest : Bytes} :
    (line .dataEnd).Leads front rest ↔
      ∃ more, front = crlf ++ more ∧ (line .start).Leads more rest := by
  simp only [line_leads_iff, ChunkLine.start_leads_iff]
  constructor
  · rintro ⟨n, head, more, rfl, ⟨size, rfl, hsize⟩, hmore⟩
    exact ⟨size ++ more, rfl, n, size, more, rfl, hsize, hmore⟩
  · rintro ⟨_, rfl, n, size, more, rfl, hsize, hmore⟩
    exact ⟨n, crlf ++ size, more, rfl, ⟨size, rfl, hsize⟩, hmore⟩

theorem isChunks_of_leads {front rest : Bytes} (h : (line .start).Leads front rest) :
    IsChunks front rest := by
  induction hlength : front.length using Nat.strongRecOn generalizing front rest with
  | ind length ih =>
      obtain ⟨n, size, more, rfl, hsize, hmore⟩ := line_leads_iff.mp h
      rw [ChunkLine.start_leads_iff] at hsize
      rcases enter_leads_iff.mp hmore with ⟨rfl, rfl, rfl⟩ | ⟨hpos, hchunk⟩
      · rw [List.append_nil]
        exact .last hsize
      · obtain ⟨data, behind, rest', rfl, rfl, rfl, hend⟩ := hchunk
        obtain ⟨later, rfl, hlater⟩ := dataEnd_leads_iff.mp hend
        have hshorter : later.length < length := by
          simp only [← hlength, List.length_append]
          omega
        exact .chunk (List.length_pos_iff.mp hpos) hsize (ih _ hshorter hlater rfl)

theorem start_leads_iff {front rest : Bytes} :
    (line .start).Leads front rest ↔ IsChunks front rest := by
  refine ⟨isChunks_of_leads, fun h => ?_⟩
  induction h with
  | last hline =>
      rw [line_leads_iff]
      exact ⟨0, _, [], by simp, ChunkLine.start_leads_iff.mpr hline, .trailers⟩
  | @chunk line data more rest hdata hline hmore ih =>
      have hpos : 0 < data.length := List.length_pos_iff.mpr hdata
      refine .line (ChunkLine.start_leads_iff.mpr hline) ?_
      exact enter_leads_iff.mpr (.inr ⟨hpos, data, crlf ++ more, rest, rfl, rfl, rfl,
        dataEnd_leads_iff.mpr ⟨more, rfl, ih⟩⟩)

theorem exists_leads (place : ChunkPlace) : ∃ front rest, place.Leads front rest := by
  have hstart : (line .start).Leads (48 :: crlf) [] := start_leads_iff.mpr (.last isSizeLine_zero)
  have hdata : ∀ {remaining : Nat} (hpos : 0 < remaining),
      ∃ front rest, (data remaining hpos).Leads front rest := by
    intro remaining hpos
    exact ⟨_, _, data_leads_iff.mpr ⟨List.replicate remaining 0, crlf ++ (48 :: crlf), [],
      List.length_replicate, rfl, rfl, dataEnd_leads_iff.mpr ⟨_, rfl, hstart⟩⟩⟩
  cases place with
  | trailers => exact ⟨[], [], .trailers⟩
  | data remaining pos => exact hdata pos
  | line between =>
      obtain ⟨n, head, hhead⟩ := between.exists_leads
      have henter : ∃ more rest, (ChunkLine.enter n).Leads more rest := by
        unfold ChunkLine.enter
        split
        · exact hdata _
        · exact ⟨[], [], .trailers⟩
      obtain ⟨more, rest, hmore⟩ := henter
      exact ⟨_, _, .line hhead hmore⟩

end ChunkPlace

end HttpFraming
