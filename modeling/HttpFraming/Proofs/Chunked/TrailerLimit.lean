import HttpFraming.Proofs.Arrival.Fronts
import HttpFraming.Proofs.Chunked.Grammar
import HttpFraming.Proofs.Framing.Agreement

/-!
# The limit on trailer sections

A decoder looks at the size of a trailer section only while the section is incomplete. So one that
is over the limit is refused exactly if some piece of the input ends within it, behind more bytes
of it than the limit allows. If it arrives otherwise it is taken like any other, and one that is
within the limit is never refused for its size: `Decoder.arrive_trailers`.
-/

namespace HttpFraming

open Bytes

/-! ## Sections -/

/-- A trailer section, and no more than that, with the part that a decoder makes of it: the last
piece of the body, or a failure where its fields cannot be stored or its last byte is wrong. -/
inductive TrailersYield {k : Kind} (lines : Bytes) : Message k → Prop
  | fields {fields : Fields} (hsection : IsTrailerSection lines fields) :
      TrailersYield lines (.payload (.last [] fields))
  | unusable {raw : List RawField} {cause : ReadError}
      (hscan : Grammar.fieldLines maxTrailerFields lines = .complete raw [])
      (hfields : Fields.ofRaw raw = .error cause) :
      TrailersYield lines (.failure ⟨none, cause, true⟩)
  | malformed {fault : SyntaxFault}
      (hscan : Grammar.fieldLines maxTrailerFields lines = .invalid fault)
      (hfronts : ∀ front back, lines = front ++ back → back ≠ [] →
        Grammar.fieldLines maxTrailerFields front = .incomplete) :
      TrailersYield lines (.failure ⟨none, fault.toReadError maxTrailerFields, true⟩)

theorem Fields.AreTrailers.isTrailerSection {fields : Fields} (h : fields.AreTrailers) :
    IsTrailerSection fields.write fields := by
  have hscan := Trailers.scan_write h []
  rw [List.append_nil] at hscan
  exact ⟨_, hscan, ofRaw_toList fields⟩

theorem Fields.ofRaw_isTooLarge {raw : List RawField} {cause : ReadError}
    (h : Fields.ofRaw raw = .error cause) : cause.isTooLarge = false := by
  unfold ofRaw at h
  generalize (∅ : Fields) = fields at h
  induction raw generalizing fields with
  | nil => cases h
  | cons field more ih =>
      rw [List.foldlM_cons] at h
      cases hname : FieldName.ofBytes? field.name with
      | none =>
          simp only [hname] at h
          cases h
          rfl
      | some name =>
          simp only [hname] at h
          exact ih _ h

theorem SyntaxFault.toReadError_isTooLarge (fault : SyntaxFault) (maxFields : Nat) :
    (fault.toReadError maxFields).isTooLarge = false := by
  cases fault <;> rfl

namespace TrailersYield

variable {k : Kind} {lines : Bytes} {part : Message k}

theorem isTooLarge (h : TrailersYield lines part) : part.isTooLarge = false := by
  cases h with
  | fields hsection => rfl
  | unusable hscan hfields => exact Fields.ofRaw_isTooLarge hfields
  | malformed hscan hfronts => exact SyntaxFault.toReadError_isTooLarge _ _

theorem settled (h : TrailersYield lines part) :
    Grammar.fieldLines maxTrailerFields lines ≠ .incomplete := by
  cases h with
  | fields hsection =>
      obtain ⟨raw, hscan, -⟩ := hsection
      simp [hscan]
  | unusable hscan hfields => simp [hscan]
  | malformed hscan hfronts => simp [hscan]

theorem front (h : TrailersYield lines part) {front back : Bytes} (hsplit : lines = front ++ back)
    (hback : back ≠ []) : Grammar.fieldLines maxTrailerFields front = .incomplete := by
  have hcomplete : ∀ {raw}, Grammar.fieldLines maxTrailerFields lines = .complete raw [] →
      Grammar.fieldLines maxTrailerFields front = .incomplete := by
    intro raw hscan
    rw [hsplit] at hscan
    exact (Grammar.fieldLines_steady maxTrailerFields).incomplete_of_append hscan hback
  cases h with
  | fields hsection =>
      obtain ⟨raw, hscan, -⟩ := hsection
      exact hcomplete hscan
  | unusable hscan hfields => exact hcomplete hscan
  | malformed hscan hfronts => exact hfronts front back hsplit hback

theorem ne_nil (h : TrailersYield lines part) : lines ≠ [] := by
  rintro rfl
  exact h.settled rfl

end TrailersYield

/-! ## Pieces -/

/-- Some piece ends between these places of the input. -/
def CutsBetween (pieces : List Bytes) (start stop : Nat) : Prop :=
  ∃ early late, pieces = early ++ late ∧ start < early.flatten.length ∧ early.flatten.length < stop

theorem exists_piece {pieces : List Bytes} {size : Nat} (hpos : 0 < size)
    (hsize : size ≤ pieces.flatten.length) :
    ∃ early piece late, pieces = early ++ piece :: late ∧ early.flatten.length < size ∧
      size ≤ (early.flatten ++ piece).length := by
  induction pieces generalizing size with
  | nil =>
      simp only [List.flatten_nil, List.length_nil] at hsize
      omega
  | cons first more ih =>
      by_cases hfirst : size ≤ first.length
      · exact ⟨[], first, more, rfl, hpos, by simpa using hfirst⟩
      · rw [List.flatten_cons, List.length_append] at hsize
        have hpos' : 0 < size - first.length := by omega
        have hsize' : size - first.length ≤ more.flatten.length := by omega
        obtain ⟨early, piece, late, rfl, hearly, hpiece⟩ := ih hpos' hsize'
        refine ⟨first :: early, piece, late, rfl, ?_, ?_⟩
        · rw [List.flatten_cons, List.length_append]
          omega
        · simp only [List.flatten_cons, List.length_append] at hpiece ⊢
          omega

theorem not_cutsBetween {early late : List Bytes} {piece : Bytes} {start stop : Nat}
    (hearly : early.flatten.length ≤ start) (hpiece : stop ≤ (early.flatten ++ piece).length) :
    ¬ CutsBetween (early ++ piece :: late) start stop := by
  rintro ⟨early', late', hsplit, hstart, hstop⟩
  have hbefore : ∀ {front back : List Bytes}, early = front ++ back →
      front.flatten.length ≤ start := by
    rintro front back rfl
    rw [List.flatten_append, List.length_append] at hearly
    omega
  rcases List.append_eq_append_iff.mp hsplit with ⟨more, rfl, hlate⟩ | ⟨more, hfront, -⟩
  · cases more with
    | nil =>
        rw [List.append_nil] at hstart
        omega
    | cons first more =>
        cases hlate
        simp only [List.flatten_append, List.flatten_cons, List.length_append] at hpiece hstop
        omega
  · have hshort := hbefore hfront
    omega

namespace Decoder

variable {k : Kind} {ρ : Type} {ask : HeadRule k ρ} {limits : Limits} {rule rule' : ρ}

/-- What arrived before a piece may as well arrive with it, if nothing of it is too large. -/
theorem deliver_through {state : Decoder k × ρ}
    (hwaits : (source ask).pull false state [] = ⟨.ok none, state, []⟩) {early : List Bytes}
    (hearly : ∀ front back, early.flatten = front ++ back →
      ∀ m ∈ ((source ask).drain false state front).values, m.isTooLarge = false)
    (piece : Bytes) (late : List Bytes) :
    ((source ask).deliver state [] (early ++ piece :: late)).joined =
      ((source ask).deliver state [] ((early.flatten ++ piece) :: late)).joined := by
  have hquiet : ∀ m ∈ ((source ask).deliver state [] early).values, m.isTooLarge = false :=
    deliver_isTooLarge early hearly
  obtain ⟨hbefore, -, hstate, hrest⟩ :=
    Drained.joined_ext (deliver_joined hwaits early hquiet)
  obtain ⟨hvalues, -, hnext, hleft⟩ :=
    Drained.joined_ext (drain_append state early.flatten piece (hearly _ [] (by simp)))
  rw [List.nil_append] at hbefore hstate hrest
  rw [Drained.after_state] at hnext
  rw [Drained.after_rest] at hleft
  rw [deliver_append, deliver_cons, hstate, hrest, Drained.after_after, deliver_cons,
    List.nil_append, ← hnext, ← hleft]
  refine Drained.joined_after_congr rfl ?_
  rw [hvalues, Drained.after_values]
  exact Message.join_append_congr hbefore rfl

/-! ## In the trailers -/

theorem decode_trailers (bytes : Bytes) :
    (⟨limits, .body (.chunked .trailers)⟩ : Decoder k).decode ask false rule bytes =
      match Trailers.read bytes with
      | ⟨.ok (some fields), rest⟩ =>
          ⟨some (.payload (.last [] fields)), ⟨limits, .head⟩, rule, rest⟩
      | ⟨.ok none, rest⟩ => ⟨none, ⟨limits, .body (.chunked .trailers)⟩, rule, rest⟩
      | ⟨.error cause, rest⟩ =>
          (⟨limits, .body (.chunked .trailers)⟩ : Decoder k).fail none cause rule rest := by
  rw [decode_body rfl]
  unfold readBody
  rw [read_false]
  rcases hread : Trailers.read bytes with ⟨answer, rest⟩
  rcases answer with cause | _ | fields <;>
    simp [BodyReader.readMore, ChunkPlace.read, ChunkPlace.readPiece, hread, Except.map,
      Item.isLast]

theorem drain_trailers_of_incomplete {bytes : Bytes}
    (hscan : Grammar.fieldLines maxTrailerFields bytes = .incomplete) :
    (source ask).drain false ((⟨limits, .body (.chunked .trailers)⟩ : Decoder k), rule) bytes =
      if maxTrailerBytes < bytes.length then
        ⟨[.failure ⟨none, .headTooLarge bytes.length maxTrailerBytes, true⟩], none,
          (⟨limits, .failed⟩, rule), []⟩
      else ⟨[], none, (⟨limits, .body (.chunked .trailers)⟩, rule), bytes⟩ := by
  have hdecode : (⟨limits, .body (.chunked .trailers)⟩ : Decoder k).decode ask false rule
      bytes = _ :=
    decode_trailers bytes
  simp only [Trailers.read, hscan] at hdecode
  split
  · rename_i hlarge
    rw [if_pos hlarge] at hdecode
    exact drain_of_fail hdecode
  · rename_i hlarge
    rw [if_neg hlarge] at hdecode
    exact drain_of_wait hdecode

/-- A section is taken whatever its size, if all of it is there. -/
theorem drain_trailers_of_section {lines : Bytes} {part : Message k}
    (hlines : TrailersYield lines part) (behind : Bytes) :
    ∃ later, ((source ask).drain false (⟨limits, .body (.chunked .trailers)⟩, rule)
      (lines ++ behind)).values = part :: later := by
  have hdecode : (⟨limits, .body (.chunked .trailers)⟩ : Decoder k).decode ask false rule
      (lines ++ behind) = _ :=
    decode_trailers (lines ++ behind)
  have hsteady := Grammar.fieldLines_steady maxTrailerFields lines behind hlines.settled
  cases hlines with
  | fields hsection =>
      obtain ⟨raw, hscan, hfields⟩ := hsection
      simp only [Trailers.read, hsteady, hscan, Scan.extend, hfields] at hdecode
      rw [drain_of_message hdecode]
      exact ⟨_, rfl⟩
  | unusable hscan hfields =>
      simp only [Trailers.read, hsteady, hscan, Scan.extend, hfields] at hdecode
      rw [drain_of_fail hdecode]
      exact ⟨[], rfl⟩
  | malformed hscan hfronts =>
      simp only [Trailers.read, hsteady, hscan, Scan.extend] at hdecode
      rw [drain_of_fail hdecode]
      exact ⟨[], rfl⟩

/-! ## Up to the trailers -/

namespace Takes

theorem ofLeads {place : ChunkPlace} {front data : Bytes} (h : place.Leads front data) :
    Takes ask (⟨limits, .body (.chunked place)⟩, rule) front (Message.chunkOf data)
      (⟨limits, .body (.chunked .trailers)⟩, rule) := by
  induction h with
  | trailers => exact refl _
  | @line between n head more rest hhead hmore ih =>
      have hadvance : between.advance head = (.ok (ChunkLine.enter n), []) :=
        ChunkLine.advance_iff.mpr ⟨head, (List.append_nil head).symm, hhead⟩
      have hwaits : (ChunkLine.enter n).readPiece [] =
          ⟨.ok none, .chunked (ChunkLine.enter n), []⟩ := by
        unfold ChunkLine.enter
        split <;> rfl
      exact (ofLine hadvance hwaits).trans ih
  | @data piece more rest hpos hmore ih =>
      have hne : piece ≠ [] := List.length_pos_iff.mp hpos
      refine ((ofChunkData hpos).trans ih).congr ?_
      have hjoin := Message.join_chunkOf_chunkOf (k := k) piece rest []
      simpa [Message.chunkOf, hne] using hjoin

end Takes

/-! ## The piece that decides -/

section Deciding

variable {before lines behind : Bytes} {messages : List (Message k)} {part : Message k}
  {pieces : List Bytes}

theorem quiet_before_limit
    (hbefore : Takes ask (⟨limits, .head⟩, rule) before messages
      (⟨limits, .body (.chunked .trailers)⟩, rule'))
    (hlines : TrailersYield lines part) {front back : Bytes}
    (hsplit : before ++ lines = front ++ back)
    (hshort : front.length < before.length + min (maxTrailerBytes + 1) lines.length) :
    ∀ m ∈ ((source ask).drain false (⟨limits, .head⟩, rule) front).values,
      m.isTooLarge = false := by
  rcases cut_cases hsplit with ⟨missing, hmissing, rfl, -⟩ | ⟨taken, rfl, hlater⟩
  · exact hbefore.fronts front missing rfl hmissing
  · rw [List.length_append] at hshort
    have hback : back ≠ [] := by
      rintro rfl
      rw [hlater, List.append_nil] at hshort
      omega
    have hroom : ¬ maxTrailerBytes < taken.length := by omega
    have hwhole := (Drained.joined_ext (hbefore.whole taken)).1
    rw [drain_trailers_of_incomplete (hlines.front hlater hback), if_neg hroom] at hwhole
    rw [← Message.isTooLarge_join, hwhole, Message.isTooLarge_join]
    simpa using hbefore.clean

/-- The first piece with which the section is complete or over the limit. What there is of the
section by then may as well have arrived at once with all that came before it. -/
theorem deliver_deciding
    (hbefore : Takes ask (⟨limits, .head⟩, rule) before messages
      (⟨limits, .body (.chunked .trailers)⟩, rule'))
    (hlines : TrailersYield lines part) (hpieces : pieces.flatten = before ++ (lines ++ behind)) :
    ∃ early piece late taken, pieces = early ++ piece :: late ∧
      early.flatten ++ piece = before ++ taken ∧ lines ++ behind = taken ++ late.flatten ∧
      early.flatten.length < before.length + min (maxTrailerBytes + 1) lines.length ∧
      min (maxTrailerBytes + 1) lines.length ≤ taken.length ∧
      ((source ask).deliver (⟨limits, .head⟩, rule) [] pieces).joined =
        ((source ask).deliver (⟨limits, .head⟩, rule) [] ((before ++ taken) :: late)).joined := by
  have hlength := List.length_pos_iff.mpr hlines.ne_nil
  have hpos : 0 < before.length + min (maxTrailerBytes + 1) lines.length := by omega
  have hsize : before.length + min (maxTrailerBytes + 1) lines.length ≤ pieces.flatten.length := by
    rw [hpieces, List.length_append, List.length_append]
    omega
  obtain ⟨early, piece, late, rfl, hearly, hpiece⟩ := exists_piece hpos hsize
  have hsplit : before ++ (lines ++ behind) = (early.flatten ++ piece) ++ late.flatten := by
    rw [← hpieces, List.flatten_append, List.flatten_cons, List.append_assoc]
  -- The piece ends behind the beginning of the section.
  obtain ⟨taken, htaken, hlater⟩ : ∃ taken, early.flatten ++ piece = before ++ taken ∧
      lines ++ behind = taken ++ late.flatten := by
    rcases cut_cases hsplit with ⟨missing, -, hmissing, -⟩ | htaken
    · rw [hmissing, List.length_append] at hpiece
      omega
    · exact htaken
  rw [htaken, List.length_append] at hpiece
  refine ⟨early, piece, late, taken, rfl, htaken, hlater, hearly, by omega, ?_⟩
  rw [← htaken]
  refine deliver_through (pull_nil ask false limits rule) (fun front back hfront => ?_) piece late
  -- A front of the earlier pieces is one of the bytes before the end of the section.
  have hshort : front.length ≤ early.flatten.length := by
    rw [hfront, List.length_append]
    omega
  have hprefix : front <+: before ++ lines := by
    have hearlier : front <+: before ++ (lines ++ behind) := by
      rw [hsplit, hfront, List.append_assoc, List.append_assoc]
      exact List.prefix_append _ _
    have hsection : before ++ lines <+: before ++ (lines ++ behind) := by
      rw [← List.append_assoc]
      exact List.prefix_append _ _
    refine List.prefix_of_prefix_length_le hearlier hsection ?_
    rw [List.length_append]
    omega
  obtain ⟨rest, hrest⟩ := hprefix
  exact quiet_before_limit hbefore hlines hrest.symm (by omega)

/-- A section that breaks off behind the limit is refused, and nothing is made of what follows. -/
theorem deliver_torn
    (hbefore : Takes ask (⟨limits, .head⟩, rule) before messages
      (⟨limits, .body (.chunked .trailers)⟩, rule'))
    (hlines : TrailersYield lines part) {taken missing : Bytes} (hsplit : lines = taken ++ missing)
    (hmissing : missing ≠ []) (hlarge : maxTrailerBytes < taken.length) (late : List Bytes) :
    ((source ask).deliver (⟨limits, .head⟩, rule) [] ((before ++ taken) :: late)).joined =
      Drained.joined
        ⟨messages ++ [.failure ⟨none, .headTooLarge taken.length maxTrailerBytes, true⟩],
          none, (⟨limits, .failed⟩, rule'), []⟩ := by
  have hwhole := hbefore.whole taken
  rw [drain_trailers_of_incomplete (hlines.front hsplit hmissing), if_pos hlarge] at hwhole
  obtain ⟨hvalues, -, hstate, hrest⟩ := Drained.joined_ext hwhole
  rw [Drained.after_state] at hstate
  rw [Drained.after_rest] at hrest
  rw [deliver_cons, List.nil_append, hstate, hrest, deliver_of_failed rfl,
    Drained.joined_after_congr rfl hvalues]
  simp [Drained.after]

theorem deliver_whole
    (hbefore : Takes ask (⟨limits, .head⟩, rule) before messages
      (⟨limits, .body (.chunked .trailers)⟩, rule'))
    (hlines : TrailersYield lines part) (extra : Bytes) (late : List Bytes) :
    ∃ later, Message.join ((source ask).deliver (⟨limits, .head⟩, rule) []
      ((before ++ (lines ++ extra)) :: late)).values = Message.join (messages ++ part :: later) := by
  have hvalues := (Drained.joined_ext (hbefore.whole (lines ++ extra))).1
  obtain ⟨later, hlater⟩ : ∃ later, ((source ask).drain false
      (⟨limits, .body (.chunked .trailers)⟩, rule') (lines ++ extra)).values = part :: later :=
    drain_trailers_of_section hlines extra
  rw [Drained.after_values, hlater] at hvalues
  rw [deliver_cons, List.nil_append, Drained.after_values, Message.join_append_congr hvalues rfl,
    List.append_assoc, List.cons_append]
  exact ⟨_, rfl⟩

/-- A section is refused for its size if it is torn behind the limit, and taken if it is not. -/
theorem deliver_trailers
    (hbefore : Takes ask (⟨limits, .head⟩, rule) before messages
      (⟨limits, .body (.chunked .trailers)⟩, rule'))
    (hlines : TrailersYield lines part) (hpieces : pieces.flatten = before ++ (lines ++ behind)) :
    let torn := CutsBetween pieces (before.length + maxTrailerBytes) (before ++ lines).length
    let delivered := (source ask).deliver (⟨limits, .head⟩, rule) [] pieces
    (torn ∧ ∃ size, maxTrailerBytes < size ∧ size < lines.length ∧
      delivered.joined =
        Drained.joined ⟨messages ++ [.failure ⟨none, .headTooLarge size maxTrailerBytes, true⟩],
          none, (⟨limits, .failed⟩, rule'), []⟩) ∨
      (¬ torn ∧ ∃ later,
        Message.join delivered.values = Message.join (messages ++ part :: later)) := by
  intro torn delivered
  obtain ⟨early, piece, late, taken, rfl, htaken, hlater, hearly, hsize, hdelivered⟩ :=
    deliver_deciding hbefore hlines hpieces
  have hreach : (early.flatten ++ piece).length = before.length + taken.length := by
    rw [htaken, List.length_append]
  rcases cut_cases hlater with ⟨missing, hmissing, hsplit, -⟩ | ⟨extra, rfl, -⟩
  · have hshort : taken.length < lines.length := by
      have hmissing := List.length_pos_iff.mpr hmissing
      rw [hsplit, List.length_append]
      omega
    have hlarge : maxTrailerBytes < taken.length := by omega
    have htorn : torn := by
      have hend : (early ++ [piece]).flatten.length = before.length + taken.length := by
        rw [List.flatten_append, List.flatten_singleton, hreach]
      refine ⟨early ++ [piece], late, by simp, by omega, ?_⟩
      rw [hend, List.length_append]
      omega
    exact .inl ⟨htorn, taken.length, hlarge, hshort,
      hdelivered.trans (deliver_torn hbefore hlines hsplit hmissing hlarge late)⟩
  · have hwhole : ¬ torn := by
      refine not_cutsBetween (by omega) ?_
      rw [hreach, List.length_append, List.length_append]
      omega
    obtain ⟨later, hvalues⟩ := deliver_whole hbefore hlines extra late
    exact .inr ⟨hwhole, later, (Drained.joined_ext hdelivered).1.trans hvalues⟩

end Deciding

theorem arrive_values (state : Decoder k × ρ) (pieces : List Bytes) (ended : Bool) :
    ∃ more, ((source ask).arrive state pieces ended).values =
      ((source ask).deliver state [] pieces).values ++ more := by
  rw [arrive_eq]
  split
  · exact ⟨_, rfl⟩
  · exact ⟨[], (List.append_nil _).symm⟩

theorem arrive_values_of_failed {state : Decoder k × ρ} {pieces : List Bytes}
    (hfailed : ((source ask).deliver state [] pieces).state.1.phase = .failed) (ended : Bool) :
    ((source ask).arrive state pieces ended).values =
      ((source ask).deliver state [] pieces).values := by
  rw [arrive_eq]
  split
  · rw [drain_of_failed hfailed, Drained.after_values, List.append_nil]
  · rfl

/-- Of a chunked message that begins behind messages that are complete, a trailer section is
refused for its size exactly if some piece of the input ends within it, behind more bytes of it
than the limit. The size in the failure is what was there of it by then. If no piece does, the
section is taken whatever its size, for what it comes to alone. So a section within the limit is
never refused for its size, but of one over the limit the cuts in the input decide. -/
theorem arrive_trailers {h framed : Head k} {bodiless : Bool} {rule'' : ρ}
    {earlier head chunks data lines behind : Bytes} {messages : List (Message k)}
    {part : Message k} {pieces : List Bytes}
    (hearlier : Takes ask (⟨limits, .head⟩, rule) earlier messages (⟨limits, .head⟩, rule'))
    (hhead : h.IsReadFrom limits head) (hask : ask h rule' = (bodiless, rule''))
    (hframe : h.frame limits bodiless = (framed, .ok .chunked)) (hchunks : IsChunks chunks data)
    (hlines : TrailersYield lines part)
    (hpieces : pieces.flatten = earlier ++ head ++ chunks ++ lines ++ behind) (ended : Bool) :
    let before := earlier ++ head ++ chunks
    let torn := CutsBetween pieces (before.length + maxTrailerBytes) (before ++ lines).length
    let shown := messages ++ .header framed :: Message.chunkOf data
    let arrived := (source ask).arrive (⟨limits, .head⟩, rule) pieces ended
    (torn → ∃ size, maxTrailerBytes < size ∧ size < lines.length ∧
      Message.join arrived.values =
        Message.join (shown ++ [.failure ⟨none, .headTooLarge size maxTrailerBytes, true⟩])) ∧
      (¬ torn → ∃ later,
        Message.join arrived.values = Message.join (shown ++ part :: later)) ∧
      part.isTooLarge = false ∧ (lines.length ≤ maxTrailerBytes → ¬ torn) := by
  intro before torn shown arrived
  have hchunked : Takes ask (⟨limits, .body (.ofFraming .chunked)⟩, rule'') chunks
      (Message.chunkOf data) (⟨limits, .body (.chunked .trailers)⟩, rule'') :=
    Takes.ofLeads (ChunkPlace.start_leads_iff.mpr hchunks)
  have hbefore := (hearlier.trans (Takes.ofReadHead hhead hask hframe)).trans hchunked
  rw [List.append_assoc messages] at hbefore
  have hflatten : pieces.flatten = before ++ (lines ++ behind) := by
    rw [hpieces, List.append_assoc]
  have hdelivered := deliver_trailers hbefore hlines hflatten
  refine ⟨fun htorn => ?_, fun htorn => ?_, hlines.isTooLarge, ?_⟩
  · rcases hdelivered with ⟨-, size, hlarge, hsize, hjoined⟩ | ⟨hnot, -⟩
    · obtain ⟨hvalues, -, hstate, -⟩ := Drained.joined_ext hjoined
      have harrived : arrived.values = _ := arrive_values_of_failed (by rw [hstate]) ended
      refine ⟨size, hlarge, hsize, ?_⟩
      rw [harrived, hvalues]
      rfl
    · exact absurd htorn hnot
  · rcases hdelivered with ⟨hcut, -⟩ | ⟨-, later, hvalues⟩
    · exact absurd hcut htorn
    · obtain ⟨more, harrived⟩ : ∃ more, arrived.values = _ ++ more :=
        arrive_values (⟨limits, .head⟩, rule) pieces ended
      refine ⟨later ++ more, ?_⟩
      rw [harrived, Message.join_append_congr hvalues rfl, List.append_assoc, List.cons_append]
      rfl
  · rintro hsmall ⟨early, late, -, hstart, hstop⟩
    rw [List.length_append] at hstop
    omega

def chunkedFields : Fields :=
  .ofList [(.transferEncoding, .chunked)]

def chunkedUpload (method : Method) : Request where
  line := ⟨method, .root⟩
  fields := chunkedFields

def chunkedUploadHead (method : Method) : Bytes :=
  Kind.writeLine .request ⟨method, .root⟩ (ascii "HTTP/1.1") ++ crlf ++ chunkedFields.write

theorem chunkedUpload_isReadFrom {method : Method}
    (hsize : (chunkedUploadHead method).length ≤ ({} : Limits).maxHeadBytes) :
    (chunkedUpload method).IsReadFrom {} (chunkedUploadHead method) := by
  have htrimmed : chunkedFields.AreTrimmed := by decide +kernel
  have hcount : chunkedFields.toList.length ≤ ({} : Limits).maxFields := by decide +kernel
  exact Head.IsReadable.isReadFrom ⟨rfl, Kind.keepsLine_root method, htrimmed, hcount, hsize⟩

theorem chunkedUpload_frame (method : Method) :
    (chunkedUpload method).frame {} false = (chunkedUpload method, .ok .chunked) := by
  have hlength : chunkedFields.contains .contentLength = false := by decide +kernel
  have hchunked : (chunkedUpload .get).isChunked = true := by decide +kernel
  have hsettled : (chunkedUpload method).Settled .chunked := .chunked hlength hchunked
  exact hsettled.frame {}

/-- Behind a request without a body comes one with a chunk and a trailer, which is torn. -/
theorem arrive_trailers_of_pipeline :
    let get : Request := { line := ⟨.get, .root⟩ }
    let post : Method := ⟨ascii "POST", by decide⟩
    let pieces := [ascii "GET / HTTP/1.1\r\n\r\nPOST / HT",
      ascii "TP/1.1\r\ntransfer-encoding: chunked\r\n\r\n3\r\nabc\r\n0\r\na: ", ascii "b\r\n\r\nG"]
    let fields := Fields.ofList [(⟨ascii "a", by decide⟩, ⟨ascii "b", by decide⟩)]
    ∃ later, Message.join ((source (statusRule .request)).arrive (⟨{}, .head⟩, ()) pieces
      false).values = Message.join ([.header get, .payload .done, .header (chunkedUpload post),
        .payload (.chunk (ascii "abc")), .payload (.last [] fields)] ++ later) := by
  intro get post pieces fields
  have hget : get.IsReadable {} (ascii "GET / HTTP/1.1\r\n\r\n") :=
    ⟨rfl, Kind.keepsLine_root _, by decide +kernel, by decide +kernel, by decide +kernel⟩
  have hframe : get.frame {} false = (get, .ok .empty) :=
    (Head.Settled.empty rfl (by decide +kernel) (by decide +kernel)).frame {}
  have hearlier : Takes (statusRule .request) (⟨{}, .head⟩, ()) (ascii "GET / HTTP/1.1\r\n\r\n")
      [.header get, .payload .done] (⟨{}, .head⟩, ()) := by
    have hhead : Takes (statusRule .request) (⟨{}, .head⟩, ()) (ascii "GET / HTTP/1.1\r\n\r\n")
        [.header get] (⟨{}, .body .empty⟩, ()) :=
      Takes.ofHead hget rfl hframe
    simpa using hhead.trans Takes.ofNothing
  have hlast : IsChunks (ascii "0\r\n") [] := .last isSizeLine_zero
  have hchunks : IsChunks (ascii "3\r\n" ++ (ascii "abc" ++ (crlf ++ ascii "0\r\n")))
      (ascii "abc" ++ []) :=
    .chunk (by decide) (isSizeLine_digit (by decide) (by decide)) hlast
  have hfields : fields.AreTrailers :=
    ⟨by decide +kernel, by decide +kernel, by decide +kernel⟩
  have hwritten : fields.write = ascii "a: b\r\n\r\n" := by decide +kernel
  have hsection : IsTrailerSection (ascii "a: b\r\n\r\n") fields := by
    rw [← hwritten]
    exact hfields.isTrailerSection
  have hpieces : pieces.flatten = ascii "GET / HTTP/1.1\r\n\r\n" ++ chunkedUploadHead post ++
      (ascii "3\r\n" ++ (ascii "abc" ++ (crlf ++ ascii "0\r\n"))) ++ ascii "a: b\r\n\r\n" ++
        ascii "G" := by
    decide +kernel
  have hread : (chunkedUpload post).IsReadFrom {} (chunkedUploadHead post) :=
    chunkedUpload_isReadFrom (by decide +kernel)
  obtain ⟨-, htaken, -, hsmall⟩ := arrive_trailers hearlier hread rfl (chunkedUpload_frame post)
    hchunks (.fields hsection) hpieces false
  exact htaken (hsmall (by decide))

def longField (size : Nat) : FieldName × FieldValue :=
  (⟨ascii "a", by decide⟩,
    ⟨List.replicate size 120, by simp [show isFieldByte 120 = true by decide]⟩)

theorem length_longField (size : Nat) :
    (Grammar.writeField (longField size)).length = size + 5 := by
  simp [Grammar.writeField, longField, crlf, show ascii "a" = [97] by decide,
    show ascii ": " = [58, space] by decide]

theorem longField_isTrailerSection (size : Nat) :
    ∃ fields, IsTrailerSection (Grammar.writeField (longField size) ++ crlf) fields := by
  have hscan := Grammar.fieldLines_trimmed [longField size] maxTrailerFields []
  rw [List.flatMap_singleton, List.append_nil, if_pos (by simp [maxTrailerFields])] at hscan
  exact ⟨_, _, hscan, rfl⟩

/-- A trailer section over the limit is delivered if it arrives at once, and refused for its size
if its last byte arrives alone. -/
theorem large_trailers_hang_on_cuts :
    let post : Method := ⟨ascii "POST", by decide⟩
    let input := chunkedUploadHead post ++ ascii "0\r\n" ++ Grammar.writeField (longField 8200)
    let received (pieces : List Bytes) :=
      ((source (statusRule .request)).arrive (⟨{}, .head⟩, ()) pieces false).values
    (Grammar.writeField (longField 8200) ++ crlf).length = 8207 ∧
      (∃ fields, .payload (.last [] fields) ∈ received [input ++ crlf]) ∧
      (∀ fields, .payload (.last [] fields) ∉ received [input ++ [cr], [lf]]) ∧
      ∃ size, .failure ⟨none, .headTooLarge size maxTrailerBytes, true⟩ ∈
        received [input ++ [cr], [lf]] := by
  intro post input received
  have hlength : (Grammar.writeField (longField 8200) ++ crlf).length = 8207 := by
    rw [List.length_append, length_longField]
    rfl
  obtain ⟨fields, hsection⟩ := longField_isTrailerSection 8200
  have hchunks : IsChunks (ascii "0\r\n") [] := .last isSizeLine_zero
  have hread : (chunkedUpload post).IsReadFrom {} (chunkedUploadHead post) :=
    chunkedUpload_isReadFrom (by decide +kernel)
  have hbefore : Takes (statusRule .request) (⟨{}, .head⟩, ())
      (chunkedUploadHead post ++ ascii "0\r\n") [.header (chunkedUpload post)]
      (⟨{}, .body (.chunked .trailers)⟩, ()) :=
    (Takes.ofReadHead hread rfl (chunkedUpload_frame post)).trans
      (Takes.ofLeads (ChunkPlace.start_leads_iff.mpr hchunks))
  have hpieces : ∀ pieces : List Bytes, pieces.flatten = input ++ crlf →
      pieces.flatten = chunkedUploadHead post ++ ascii "0\r\n" ++
        (Grammar.writeField (longField 8200) ++ crlf ++ []) := by
    intro pieces hflatten
    rw [hflatten, List.append_nil, List.append_assoc]
  have hreceived : ∀ pieces, received pieces =
      ((source (statusRule .request)).deliver (⟨{}, .head⟩, ()) [] pieces).values := by
    intro pieces
    exact congrArg Drained.values (arrive_eq _ _ pieces false)
  have hwhole := deliver_trailers hbefore (.fields hsection) (hpieces [input ++ crlf] (by simp))
  have htorn := deliver_trailers hbefore (.fields hsection)
    (hpieces [input ++ [cr], [lf]] (by simp [crlf]))
  dsimp only at hwhole htorn
  rw [← hreceived] at hwhole
  refine ⟨hlength, ⟨fields, ?_⟩, ?_⟩
  · rcases hwhole with ⟨hcut, -⟩ | ⟨-, later, hvalues⟩
    · have hone : ([] : List Bytes) ++ (input ++ crlf) :: [] = [input ++ crlf] := rfl
      refine absurd hcut (hone ▸ not_cutsBetween (Nat.zero_le _) ?_)
      simp [input]
    · rw [← Message.mem_join (by simp), hvalues, Message.mem_join (by simp)]
      simp
  · rcases htorn with ⟨-, size, -, -, hjoined⟩ | ⟨hnot, -⟩
    · have hvalues := (Drained.joined_ext hjoined).1
      rw [← hreceived] at hvalues
      refine ⟨fun fields' => ?_, size, ?_⟩
      · rw [← Message.mem_join (by simp), hvalues, Message.mem_join (by simp)]
        simp
      · rw [← Message.mem_join (by simp), hvalues, Message.mem_join (by simp)]
        simp
    · refine absurd ⟨[input ++ [cr]], [[lf]], rfl, ?_, ?_⟩ hnot
      · simp only [input, List.flatten_singleton, List.length_append, length_longField,
          maxTrailerBytes, List.length_singleton]
        omega
      · simp only [input, List.flatten_singleton, List.length_append, crlf, List.length_cons,
          List.length_nil]
        omega

end Decoder

end HttpFraming
