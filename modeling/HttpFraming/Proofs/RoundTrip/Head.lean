import HttpFraming.Message.Encoder
import HttpFraming.Proofs.Arrival.Scanning
import HttpFraming.Proofs.RoundTrip.Target

/-!
# Written heads read back

A head is read as it was written if its target is, if no value has blanks around it, and if
it is within the limits: `Head.read_write`. The scan of its start line and the scan of its
field lines are taken one after the other.
-/

namespace HttpFraming

open Bytes

/-! ## Start lines -/

namespace Grammar

theorem skipEmptyLines_cons {b : UInt8} (hlf : b ≠ lf) (hcr : b ≠ cr) (rest : Bytes) :
    skipEmptyLines (b :: rest) = .complete () (b :: rest) := by
  rw [skipEmptyLines.eq_def]
  simp [hlf, hcr]

theorem lineEnd_crlf (fault : SyntaxFault) (rest : Bytes) :
    lineEnd fault (crlf ++ rest) = .complete () rest :=
  rfl

theorem isToken_ne_lineEnd {b : UInt8} (h : isToken b = true) : b ≠ lf ∧ b ≠ cr := by
  refine ⟨?_, ?_⟩ <;> intro hb <;> subst hb <;> exact absurd h (by decide)

theorem method_bytes (m : Method) : m.bytes ≠ [] ∧ ∀ b ∈ m.bytes, isToken b = true := by
  have hvalid := m.valid
  simp only [Bool.and_eq_true, List.all_eq_true] at hvalid
  exact ⟨by simpa using hvalid.1, hvalid.2⟩

theorem method_append (m : Method) (rest : Bytes) :
    method (m.bytes ++ space :: rest) = .complete m rest := by
  rw [method, runUntil_append (method_bytes m).2 (by decide)]
  simp [Scan.andThen, check, Method.ofBytes?, m.valid]

theorem version_append {v : Version} {word : Bytes} (h : v.written? = some word) (rest : Bytes) :
    version (word ++ rest) = .complete v rest := by
  cases v with
  | http10 =>
      cases h
      rfl
  | http11 =>
      cases h
      rfl
  | http09 => cases h
  | http2 => cases h
  | http3 => cases h

theorem requestLine_write (line : RequestLine) {v : Version} {word : Bytes}
    (h : v.written? = some word) (rest : Bytes) :
    requestLine (Kind.writeLine .request line word ++ crlf ++ rest) =
      .complete (line.method, line.target.render, v) rest := by
  obtain ⟨hne, htoken⟩ := method_bytes line.method
  obtain ⟨b, tail, hb⟩ := List.exists_cons_of_ne_nil hne
  have hfirst := isToken_ne_lineEnd (htoken b (by simp [hb]))
  have hskip : skipEmptyLines (line.method.bytes ++ space :: (line.target.render ++ space ::
      (word ++ (crlf ++ rest)))) = .complete () (line.method.bytes ++ space ::
        (line.target.render ++ space :: (word ++ (crlf ++ rest)))) := by
    rw [hb, List.cons_append]
    exact skipEmptyLines_cons hfirst.1 hfirst.2 _
  have hwritten : Kind.writeLine .request line word ++ crlf ++ rest = line.method.bytes ++
      space :: (line.target.render ++ space :: (word ++ (crlf ++ rest))) := by
    simp [Kind.writeLine]
  rw [hwritten]
  simp only [requestLine, hskip, Scan.andThen, method_append, target_render, version_append h,
    lineEnd_crlf, Scan.map]

end Grammar

namespace Status

theorem digits_eq (status : Status) :
    status.digits = [Numeral.digit (status.code / 100), Numeral.digit (status.code / 10 % 10),
      Numeral.digit (status.code % 10)] := by
  obtain ⟨low, high⟩ := status.three_digits
  have hsplit : status.code / 10 / 10 = status.code / 100 := by omega
  rw [digits, Numeral.write, if_neg (by omega), Numeral.write, if_neg (by omega), hsplit,
    Numeral.write, if_pos (by omega)]
  rfl

theorem reason_bytes (status : Status) : ∀ b ∈ ascii status.reason, isFieldByte b = true := by
  rw [← List.all_eq_true]
  unfold reason
  split <;> decide +kernel

end Status

namespace Grammar

theorem statusDigit_digit {d : Nat} (hd : d < 10) (rest : Bytes) :
    statusDigit (Numeral.digit d :: rest) = .complete d rest := by
  simp [statusDigit, byte, Numeral.digit?_digit (by decide) hd]

theorem reason_append {phrase : Bytes} (h : ∀ b ∈ phrase, isFieldByte b = true) (rest : Bytes) :
    reason (space :: (phrase ++ (crlf ++ rest))) = .complete () rest := by
  have hdrop : (phrase ++ (crlf ++ rest)).dropWhile isFieldByte = crlf ++ rest := by
    rw [List.dropWhile_append_of_pos h]
    rfl
  simp only [reason, if_true, hdrop, lineEnd_crlf]

theorem statusLine_write (status : Status) {v : Version} {word : Bytes}
    (h : v.written? = some word) (rest : Bytes) :
    statusLine (Kind.writeLine .response status word ++ crlf ++ rest) =
      .complete (status.code, v) rest := by
  obtain ⟨low, high⟩ := status.three_digits
  have hskip : ∀ more, skipEmptyLines (word ++ more) = .complete () (word ++ more) := by
    intro more
    cases v <;> cases h <;> exact skipEmptyLines_cons (by decide) (by decide) _
  have hcode : 100 * (status.code / 100) + 10 * (status.code / 10 % 10) + status.code % 10 =
      status.code := by omega
  have hspace : ∀ more, byte (fun b => if b = space then some () else none) .version
      (space :: more) = .complete () more := fun more => rfl
  simp only [statusLine, Kind.writeLine, Status.digits_eq, List.append_assoc,
    List.cons_append, List.nil_append, hskip, Scan.andThen,
    version_append h, hspace, statusDigit_digit (show status.code / 100 < 10 by omega),
    statusDigit_digit (show status.code / 10 % 10 < 10 by omega),
    statusDigit_digit (show status.code % 10 < 10 by omega),
    reason_append status.reason_bytes, Scan.map, hcode]

end Grammar

/-! ## Field lines -/

def FieldValue.trimmed (value : FieldValue) : FieldValue :=
  ⟨trim value.bytes, trim_all value.valid⟩

def FieldValue.IsTrimmed (value : FieldValue) : Prop :=
  trim value.bytes = value.bytes

theorem FieldValue.IsTrimmed.trimmed_eq {value : FieldValue} (h : value.IsTrimmed) :
    value.trimmed = value := by
  cases value
  simp_all [trimmed, IsTrimmed]

def Fields.AreTrimmed (fields : Fields) : Prop :=
  ∀ field ∈ fields.toList, field.2.IsTrimmed

instance (value : FieldValue) : Decidable value.IsTrimmed :=
  inferInstanceAs (Decidable (_ = _))

instance (fields : Fields) : Decidable fields.AreTrimmed :=
  inferInstanceAs (Decidable (∀ field ∈ fields.toList, field.2.IsTrimmed))

def RawField.ofField (field : FieldName × FieldValue) : RawField :=
  ⟨field.1.bytes, field.2⟩

namespace Grammar

theorem fieldName_bytes (name : FieldName) :
    name.bytes ≠ [] ∧ ∀ b ∈ name.bytes, isToken b = true := by
  have hvalid := name.valid
  simp only [isFieldName, Bool.and_eq_true, List.all_eq_true] at hvalid
  exact ⟨by simpa using hvalid.1.1, fun b hb => (hvalid.2 b hb).1⟩

theorem fieldName_append (name : FieldName) (rest : Bytes) :
    fieldName (name.bytes ++ 58 :: rest) = .complete name.bytes rest := by
  obtain ⟨hne, htoken⟩ := fieldName_bytes name
  have hempty : name.bytes.isEmpty = false := by simpa using hne
  rw [fieldName, runUntil_append htoken (by decide)]
  simp [Scan.andThen, check, hempty]

theorem fieldValue_append (value : FieldValue) (rest : Bytes) :
    fieldValue (space :: (value.bytes ++ (crlf ++ rest))) = .complete value.trimmed rest := by
  have hbytes : ∀ b ∈ space :: value.bytes, isFieldByte b = true := by
    intro b hb
    rcases List.mem_cons.mp hb with rfl | hb
    · decide
    · exact List.all_eq_true.mp value.valid b hb
  have htake : (space :: (value.bytes ++ (crlf ++ rest))).takeWhile isFieldByte =
      space :: value.bytes := by
    rw [← List.cons_append, List.takeWhile_append_of_pos hbytes]
    show space :: value.bytes ++ [] = _
    rw [List.append_nil]
  have hdrop : (space :: (value.bytes ++ (crlf ++ rest))).dropWhile isFieldByte =
      crlf ++ rest := by
    rw [← List.cons_append, List.dropWhile_append_of_pos hbytes]
    rfl
  have htrim : trim (space :: value.bytes) = trim value.bytes := by
    have hblank : (space :: value.bytes).dropWhile isBlank = value.bytes.dropWhile isBlank :=
      List.dropWhile_cons_of_pos (by decide)
    rw [trim, hblank, trim]
  simp only [fieldValue, hdrop, lineEnd_crlf, Scan.map, htake, htrim, FieldValue.trimmed]

def writeField (field : FieldName × FieldValue) : Bytes :=
  field.1.bytes ++ ascii ": " ++ field.2.bytes ++ crlf

theorem fieldLine_write (field : FieldName × FieldValue) (rest : Bytes) :
    fieldLine (writeField field ++ rest) =
      .complete (.ofField (field.1, field.2.trimmed)) rest := by
  have hwritten : writeField field ++ rest =
      field.1.bytes ++ 58 :: (space :: (field.2.bytes ++ (crlf ++ rest))) := by
    simp [writeField, show ascii ": " = [58, space] by decide]
  rw [hwritten]
  simp only [fieldLine, fieldName_append, Scan.andThen, fieldValue_append, Scan.map]
  rfl

theorem startsLineEnd_write (field : FieldName × FieldValue) (rest : Bytes) :
    startsLineEnd (writeField field ++ rest) = false := by
  obtain ⟨hne, htoken⟩ := fieldName_bytes field.1
  obtain ⟨b, tail, hb⟩ := List.exists_cons_of_ne_nil hne
  obtain ⟨hlf, hcr⟩ := isToken_ne_lineEnd (htoken b (by simp [hb]))
  simp [startsLineEnd, writeField, hb, hlf, hcr]

/-- Fields are read back without the blanks around their values, if there are not too many. -/
theorem fieldLines_trimmed (pairs : List (FieldName × FieldValue)) (room : Nat) (rest : Bytes) :
    fieldLines room (pairs.flatMap writeField ++ crlf ++ rest) =
      if pairs.length ≤ room then
        .complete (pairs.map fun pair => .ofField (pair.1, pair.2.trimmed)) rest
      else .invalid .tooManyFields := by
  induction pairs generalizing room with
  | nil => cases room <;> rfl
  | cons pair more ih =>
      have hline := fieldLine_write pair (more.flatMap writeField ++ crlf ++ rest)
      rw [List.flatMap_cons, List.append_assoc, List.append_assoc, ← List.append_assoc _ crlf]
      cases room with
      | zero =>
          rw [fieldLines, if_neg (by simp [startsLineEnd_write]), hline]
          simp [Scan.andThen]
      | succ room =>
          rw [fieldLines, if_neg (by simp [startsLineEnd_write]), hline]
          simp only [Scan.andThen, ih, List.length_cons, Nat.add_le_add_iff_right]
          split <;> rfl

theorem fieldLines_write {pairs : List (FieldName × FieldValue)} {room : Nat}
    (hroom : pairs.length ≤ room) (htrimmed : ∀ pair ∈ pairs, pair.2.IsTrimmed) (rest : Bytes) :
    fieldLines room (pairs.flatMap writeField ++ crlf ++ rest) =
      .complete (pairs.map .ofField) rest := by
  rw [fieldLines_trimmed, if_pos hroom]
  congr 1
  exact List.map_congr_left fun pair hmem => by rw [(htrimmed pair hmem).trimmed_eq]

end Grammar

theorem Fields.write_eq (fields : Fields) :
    fields.write = fields.toList.flatMap Grammar.writeField ++ crlf :=
  rfl

namespace Fields

theorem updateEntries_of_not_mem {name : FieldName} {front : List Field}
    (h : name ∉ front.map Field.name) (f : Option Values → Values) (back : List Field) :
    updateEntries name f (front ++ back) = front ++ updateEntries name f back := by
  induction front with
  | nil => rfl
  | cons entry rest ih =>
      simp only [List.map_cons, List.mem_cons, not_or] at h
      rw [List.cons_append, updateEntries, if_neg (Ne.symm h.1), ih h.2, List.cons_append]

theorem appendAll_entries (name : FieldName) (more : List FieldValue) (fields : Fields)
    (front : List Field) (values : Values) (hentries : fields.entries = front ++ [⟨name, values⟩])
    (hnew : name ∉ front.map Field.name) :
    (more.foldl (fun acc value => acc.append name value) fields).entries =
      front ++ [⟨name, ⟨values.first, values.more ++ more⟩⟩] := by
  induction more generalizing fields values with
  | nil => simpa using hentries
  | cons value more ih =>
      have hpushed : (fields.append name value).entries = front ++ [⟨name, values.push value⟩] := by
        show updateEntries name _ fields.entries = _
        rw [hentries, updateEntries_of_not_mem hnew]
        simp [updateEntries]
      rw [List.foldl_cons, ih _ _ hpushed]
      simp [Values.push]

theorem appendEntry_entries (fields : Fields) (entry : Field)
    (hnew : entry.name ∉ fields.entries.map Field.name) :
    ((entry.values.toList.map fun value => (entry.name, value)).foldl
      (fun acc pair => acc.append pair.1 pair.2) fields).entries = fields.entries ++ [entry] := by
  have hfirst : (fields.append entry.name entry.values.first).entries =
      fields.entries ++ [⟨entry.name, .single entry.values.first⟩] := by
    show updateEntries entry.name _ fields.entries = _
    conv => lhs; rw [← List.append_nil fields.entries]
    rw [updateEntries_of_not_mem hnew]
    rfl
  rw [List.foldl_map, Values.toList, List.foldl_cons]
  exact appendAll_entries _ entry.values.more _ _ _ hfirst hnew

/-- Fields are determined by their pairs. -/
theorem ofList_toList (fields : Fields) : ofList fields.toList = fields := by
  have hadd : ∀ (back : List Field) (acc : Fields),
      ((acc.entries ++ back).map Field.name).Nodup →
      ((back.flatMap fun entry => entry.values.toList.map fun value => (entry.name, value)).foldl
        (fun acc pair => acc.append pair.1 pair.2) acc).entries = acc.entries ++ back := by
    intro back
    induction back with
    | nil => simp
    | cons entry back ih =>
        intro acc hdistinct
        have hnew : entry.name ∉ acc.entries.map Field.name := by
          intro hmem
          rw [List.map_append, List.nodup_append] at hdistinct
          exact hdistinct.2.2 _ hmem _ (by simp) rfl
        have hentry := appendEntry_entries acc entry hnew
        rw [List.flatMap_cons, List.foldl_append, ih _ (by rw [hentry]; simpa using hdistinct),
          hentry]
        simp
  have hentries := hadd fields.entries ∅ fields.distinct
  cases h : ofList fields.toList with
  | mk entries distinct =>
      have hsame : entries = fields.entries := by
        rw [← show (ofList fields.toList).entries = entries by rw [h]]
        exact hentries
      cases fields
      simp_all

theorem ofRaw_toList (fields : Fields) :
    ofRaw (fields.toList.map .ofField) = .ok fields := by
  have hfold : ofRaw (fields.toList.map .ofField) = fields.toList.foldlM (fun acc pair =>
      (.ok (acc.append pair.1 pair.2) : Except ReadError Fields)) ∅ := by
    simp only [ofRaw, List.foldlM_map, RawField.ofField, FieldName.ofBytes?_bytes]
  rw [hfold]
  exact List.foldlM_pure.trans (congrArg Except.ok (ofList_toList fields))

end Fields

/-! ## Heads -/

namespace Kind

def rawLine : (k : Kind) → k.Line → k.RawLine
  | .request, line => (line.method, line.target.render)
  | .response, status => status.code

/-- Whether a start line survives being written and read: a target has to. -/
def KeepsLine : (k : Kind) → k.Line → Prop
  | .request, line => Target.read? line.target.render = some line.target
  | .response, _ => True

theorem keepsLine_root (method : Method) : KeepsLine .request ⟨method, .root⟩ := by
  show Target.read? Target.root.render = some Target.root
  decide +kernel

theorem scanLine_write {k : Kind} (line : k.Line) {v : Version} {word : Bytes}
    (h : v.written? = some word) (rest : Bytes) :
    k.scanLine (k.writeLine line word ++ crlf ++ rest) = .complete (k.rawLine line, v) rest := by
  cases k with
  | request =>
      rw [scanLine, Grammar.requestLine_write line h]
      rfl
  | response => exact Grammar.statusLine_write line h rest

theorem line_rawLine {k : Kind} {line : k.Line} (h : k.KeepsLine line) :
    k.line (k.rawLine line) = .ok line := by
  cases k with
  | request =>
      have hread : Target.read? line.target.render = some line.target := h
      simp [Kind.line, rawLine, hread]
  | response =>
      have hread : Status.ofNat? (Status.code line) = some line := by
        simp [Status.ofNat?, Status.three_digits line]
      simp [Kind.line, rawLine, hread]

end Kind

/-- A head that a reader with these limits gives back as it was written. -/
structure Head.IsReadable (limits : Limits) (h : Head k) (written : Bytes) : Prop where
  write_eq : h.write = .ok written
  line : k.KeepsLine h.line
  trimmed : h.fields.AreTrimmed
  count : h.fields.toList.length ≤ limits.maxFields
  size : written.length ≤ limits.maxHeadBytes

namespace Head

theorem write_ok {h : Head k} {written : Bytes} (hwrite : h.write = .ok written) :
    ∃ word, h.version.written? = some word ∧
      written = k.writeLine h.line word ++ crlf ++ h.fields.write := by
  unfold write at hwrite
  cases hword : h.version.written? with
  | none => simp [hword] at hwrite
  | some word =>
      simp only [hword, Except.ok.injEq] at hwrite
      exact ⟨word, rfl, hwrite.symm⟩

theorem scan_write {limits : Limits} {h : Head k} {written : Bytes}
    (hreadable : h.IsReadable limits written) (rest : Bytes) :
    RawHead.scan k limits.maxFields (written ++ rest) =
      .complete ⟨k.rawLine h.line, h.version, h.fields.toList.map .ofField⟩ rest := by
  obtain ⟨word, hword, rfl⟩ := write_ok hreadable.write_eq
  rw [List.append_assoc]
  simp only [RawHead.scan, Kind.scanLine_write h.line hword, Scan.andThen, Fields.write_eq,
    Grammar.fieldLines_write hreadable.count hreadable.trimmed, Scan.map]

/-- A written head reads back, whatever comes behind it. -/
theorem read_write {limits : Limits} {h : Head k} {written : Bytes}
    (hreadable : h.IsReadable limits written) (rest : Bytes) :
    read k limits (written ++ rest) = ⟨.ok (some h), rest⟩ := by
  have hsize : ¬ limits.maxHeadBytes < (written ++ rest).length - rest.length := by
    have := hreadable.size
    simp only [List.length_append]
    omega
  simp only [read, scan_write hreadable, hsize, if_false, Kind.line_rawLine hreadable.line,
    Fields.ofRaw_toList]

end Head

end HttpFraming
