import HttpFraming.Framing
import HttpFraming.Proofs.RoundTrip.Framing
import HttpFraming.Proofs.RoundTrip.Head
import Mathlib.Data.List.TakeWhile

/-!
# Heads with blanks around their values

A reader drops the blanks around a value, and a writer does not add or drop any. So a head is
read back with its values trimmed: `Head.read_trimmed`. What the fields say about the body is
the same before and after, as both ends trim what they look at.
-/

namespace HttpFraming

open Bytes

/-! ## Bytes with blanks around them -/

namespace Bytes

theorem trim_append {before after : Bytes} (hbefore : ∀ b ∈ before, isBlank b = true)
    (hafter : ∀ b ∈ after, isBlank b = true) (bytes : Bytes) :
    trim (before ++ bytes ++ after) = trim bytes := by
  have hnone : ∀ {l : Bytes}, (∀ b ∈ l, isBlank b = true) → l.dropWhile isBlank = [] :=
    fun hl => List.dropWhile_eq_nil_iff.mpr hl
  rw [trim, List.append_assoc, List.dropWhile_append_of_pos hbefore, List.dropWhile_append]
  split
  · rename_i hempty
    have hbytes : bytes.dropWhile isBlank = [] := by simpa using hempty
    simp [trim, hbytes, hnone hafter]
  · rw [List.reverse_append, List.dropWhile_append_of_pos (by simpa using hafter), trim]

theorem exists_blanks (bytes : Bytes) :
    ∃ before after, bytes = before ++ trim bytes ++ after ∧
      (∀ b ∈ before, isBlank b = true) ∧ ∀ b ∈ after, isBlank b = true := by
  refine ⟨bytes.takeWhile isBlank,
    ((bytes.dropWhile isBlank).reverse.takeWhile isBlank).reverse, ?_, ?_, ?_⟩
  · rw [trim, List.append_assoc, ← List.reverse_append, List.takeWhile_append_dropWhile,
      List.reverse_reverse, List.takeWhile_append_dropWhile]
  · exact fun b hb => List.mem_takeWhile_imp hb
  · exact fun b hb => List.mem_takeWhile_imp (List.mem_reverse.mp hb)

theorem trim_trim (bytes : Bytes) : trim (trim bytes) = trim bytes := by
  obtain ⟨before, after, hsplit, hbefore, hafter⟩ := exists_blanks bytes
  conv => rhs; rw [hsplit, trim_append hbefore hafter]

theorem elements_cases (bytes : Bytes) :
    (comma ∉ bytes ∧ elements bytes = [trim bytes]) ∨
      ∃ first rest, bytes = first ++ comma :: rest ∧ comma ∉ first ∧
        elements bytes = trim first :: elements rest := by
  by_cases hcomma : comma ∈ bytes
  · obtain ⟨first, rest, rfl, hfirst⟩ := List.eq_append_cons_of_mem hcomma
    refine .inr ⟨first, rest, rfl, hfirst, ?_⟩
    rw [elements, List.splitOn_append_cons_self_of_not_mem hfirst, List.map_cons, elements]
  · exact .inl ⟨hcomma, by rw [elements, List.splitOn_eq_singleton hcomma, List.map_singleton]⟩

theorem elements_ne_nil (bytes : Bytes) : elements bytes ≠ [] := by
  rcases elements_cases bytes with ⟨-, hone⟩ | ⟨first, rest, -, -, hmore⟩
  · simp [hone]
  · simp [hmore]

/-- Blanks at the ends of a list do not show in its elements. -/
theorem elements_append {before after : Bytes} (hbefore : ∀ b ∈ before, isBlank b = true)
    (hafter : ∀ b ∈ after, isBlank b = true) (bytes : Bytes) :
    elements (before ++ bytes ++ after) = elements bytes := by
  have hclean : ∀ {l : Bytes}, (∀ b ∈ l, isBlank b = true) → comma ∉ l :=
    fun hl hmem => absurd (hl _ hmem) (by decide)
  induction hn : bytes.length using Nat.strongRecOn generalizing before bytes with
  | _ n ih =>
      rcases elements_cases bytes with ⟨hcomma, hone⟩ | ⟨first, rest, rfl, hfirst, hmore⟩
      · have hwhole : comma ∉ before ++ bytes ++ after := by
          simp [hcomma, hclean hbefore, hclean hafter]
        rw [hone, elements, List.splitOn_eq_singleton hwhole, List.map_singleton,
          trim_append hbefore hafter]
      · have hlt : rest.length < n := by
          rw [← hn, List.length_append, List.length_cons]
          omega
        have hrest : elements ([] ++ rest ++ after) = elements rest :=
          ih rest.length hlt (by simp) rest rfl
        have hfront : comma ∉ before ++ first := by simp [hfirst, hclean hbefore]
        have hsplit : before ++ (first ++ comma :: rest) ++ after =
            (before ++ first) ++ comma :: (rest ++ after) := by simp
        have htrim : trim (before ++ first ++ []) = trim first :=
          trim_append hbefore (by simp) first
        rw [List.append_nil] at htrim
        rw [hsplit, hmore, elements, List.splitOn_append_cons_self_of_not_mem hfront,
          List.map_cons, htrim]
        exact congrArg _ hrest

theorem elements_trim (bytes : Bytes) : elements (trim bytes) = elements bytes := by
  obtain ⟨before, after, hsplit, hbefore, hafter⟩ := exists_blanks bytes
  conv => rhs; rw [hsplit, elements_append hbefore hafter]

end Bytes

/-! ## Fields with trimmed values -/

theorem FieldValue.text?_trimmed (value : FieldValue) :
    value.trimmed.text? = value.text?.map trim := by
  have hplain : (trim value.bytes).all isPlain = value.bytes.all isPlain := by
    obtain ⟨before, after, hsplit, hbefore, hafter⟩ := exists_blanks value.bytes
    have hblank : ∀ {l : Bytes}, (∀ b ∈ l, isBlank b = true) → l.all isPlain = true := by
      intro l hl
      rw [List.all_eq_true]
      intro b hb
      have hb := hl b hb
      simp only [isBlank, Bool.or_eq_true, beq_iff_eq] at hb
      rcases hb with rfl | rfl <;> decide
    conv => rhs; rw [hsplit, List.all_append, List.all_append, hblank hbefore, hblank hafter]
    simp
  simp only [text?, trimmed, hplain]
  split <;> rfl

def Values.trimmed (values : Values) : Values :=
  ⟨values.first.trimmed, values.more.map FieldValue.trimmed⟩

namespace Fields

def trimmed (fields : Fields) : Fields where
  entries := fields.entries.map fun entry => ⟨entry.name, entry.values.trimmed⟩
  distinct := by
    rw [List.map_map]
    exact fields.distinct

theorem toList_trimmed (fields : Fields) :
    fields.trimmed.toList = fields.toList.map fun field => (field.1, field.2.trimmed) := by
  simp only [toList, trimmed, Values.trimmed, Values.toList, List.flatMap_map, List.map_flatMap,
    List.map_map, List.map_cons, Function.comp_def]

theorem find?_trimmed (fields : Fields) (name : FieldName) :
    fields.trimmed.find? name = (fields.find? name).map Values.trimmed := by
  simp only [find?, trimmed, List.find?_map, Option.map_map, Function.comp_def]

theorem contains_trimmed (fields : Fields) (name : FieldName) :
    fields.trimmed.contains name = fields.contains name := by
  simp [contains, find?_trimmed]

theorem get?_trimmed (fields : Fields) (name : FieldName) :
    fields.trimmed.get? name = (fields.get? name).map FieldValue.trimmed := by
  simp only [get?, find?_trimmed, Option.map_map]
  rfl

theorem values_trimmed (fields : Fields) (name : FieldName) :
    fields.trimmed.values name = (fields.values name).map FieldValue.trimmed := by
  simp only [values, find?_trimmed]
  cases fields.find? name <;> rfl

theorem scan_trimmed (fields : Fields) (room : Nat) (rest : Bytes) :
    Grammar.fieldLines room (fields.write ++ rest) =
      if fields.toList.length ≤ room then
        .complete (fields.trimmed.toList.map .ofField) rest
      else .invalid .tooManyFields := by
  rw [write_eq, Grammar.fieldLines_trimmed, toList_trimmed, List.map_map]
  rfl

end Fields

def Head.trimmed (h : Head k) : Head k :=
  { h with fields := h.fields.trimmed }

/-! ## Heads -/

namespace Head

variable {k : Kind}

/-- A written head is refused, or read back with its values trimmed and nothing else of what
follows its start line changed. Whatever comes behind it is left. -/
theorem read_trimmed {h : Head k} {written : Bytes} (hwrite : h.write = .ok written)
    (limits : Limits) (rest : Bytes) :
    (∃ cause left, read k limits (written ++ rest) = ⟨.error cause, left⟩) ∨
      ∃ line, read k limits (written ++ rest) =
        ⟨.ok (some ⟨line, h.version, h.fields.trimmed⟩), rest⟩ := by
  obtain ⟨word, hword, rfl⟩ := write_ok hwrite
  have hscan : RawHead.scan k limits.maxFields
      (k.writeLine h.line word ++ crlf ++ h.fields.write ++ rest) =
        (Grammar.fieldLines limits.maxFields (h.fields.write ++ rest)).map fun fields =>
          ⟨k.rawLine h.line, h.version, fields⟩ := by
    rw [List.append_assoc (k.writeLine h.line word ++ crlf)]
    simp only [RawHead.scan, Kind.scanLine_write h.line hword, Scan.andThen]
  rw [h.fields.scan_trimmed] at hscan
  by_cases hcount : h.fields.toList.length ≤ limits.maxFields
  · rw [if_pos hcount] at hscan
    simp only [read, hscan, Scan.map, Fields.ofRaw_toList]
    split
    · exact .inl ⟨_, _, rfl⟩
    · cases k.line (k.rawLine h.line) with
      | error cause => exact .inl ⟨_, _, rfl⟩
      | ok line => exact .inr ⟨line, rfl⟩
  · rw [if_neg hcount] at hscan
    simp only [read, hscan, Scan.map]
    exact .inl ⟨_, _, rfl⟩

theorem contentLength?_of_text {h : Head k} {first : FieldValue} {text : Bytes} {n : Nat}
    (hfirst : h.fields.get? .contentLength = some first) (htext : first.text? = some text)
    (hnumber : ContentLength.number (trim text) = .ok n) : h.contentLength? = some n := by
  unfold ContentLength.number at hnumber
  cases hread : (Numeral.read? 10 (trim text)).filter (· < Numeral.wordBound) with
  | none => simp [hread] at hnumber
  | some m =>
      simp only [hread, Except.ok.injEq] at hnumber
      obtain ⟨hnonempty, hdigits⟩ := Numeral.digits_of_read? (Option.filter_eq_some_iff.mp hread).1
      obtain ⟨b, rest, hb⟩ := List.exists_cons_of_ne_nil hnonempty
      have hplus : b ≠ 43 := (digit_class b (hdigits b (by simp [hb]))).2.2.2
      have hhead : (trim text).head? ≠ some 43 := by simpa [hb] using hplus
      simp only [contentLength?, hfirst, htext, Option.bind_eq_bind, Option.bind_some,
        if_neg hhead, hread, hnumber]

theorem text_of_contentLength? {h : Head k} {m : Nat} (hlength : h.contentLength? = some m) :
    ∃ first text, h.fields.get? .contentLength = some first ∧ first.text? = some text ∧
      comma ∉ trim text := by
  unfold contentLength? at hlength
  cases hfirst : h.fields.get? .contentLength with
  | none => simp [hfirst] at hlength
  | some first =>
      cases htext : first.text? with
      | none => simp [hfirst, htext] at hlength
      | some text =>
          refine ⟨first, text, rfl, htext, ?_⟩
          simp only [hfirst, htext, Option.bind_eq_bind, Option.bind_some] at hlength
          obtain ⟨-, hdigits⟩ := Numeral.digits_of_read? (Option.filter_eq_some_iff.mp hlength).1
          have hclean : ∀ {digits : Bytes}, (∀ b ∈ digits, isDigit b = true) → comma ∉ digits :=
            fun hl hmem => absurd (hl _ hmem) (by decide)
          split at hdigits
          · rename_i hplus
            cases htrim : trim text with
            | nil => simp
            | cons b rest =>
                rw [htrim] at hplus hdigits
                have hb : b = 43 := by simpa using hplus
                have hne : comma ≠ b := by rw [hb]; decide
                simpa [hne] using hclean hdigits
          · exact hclean hdigits

end Head

/-- The elements of an announced length begin with those of the first field, and there are
none only if there is no field. -/
theorem ContentLength.elements?_trimmed {fields : Fields} {all : List Bytes}
    (h : elements? fields.trimmed = some all) :
    fields.contains .contentLength = false ∧ all = [] ∨
      fields.contains .contentLength = true ∧ ∃ first text later,
        fields.get? .contentLength = some first ∧ first.text? = some text ∧
          all = elements text ++ later := by
  unfold elements? at h
  rw [Fields.values_trimmed] at h
  cases hvalues : fields.values .contentLength with
  | nil =>
      rw [hvalues] at h
      cases h
      cases hfind : fields.find? .contentLength with
      | none => exact .inl ⟨by simp [Fields.contains, hfind], rfl⟩
      | some values => simp [Fields.values, hfind, Values.toList] at hvalues
  | cons first others =>
      rw [hvalues, List.map_cons, List.mapM_cons, FieldValue.text?_trimmed] at h
      cases htext : first.text? with
      | none => simp [htext] at h
      | some text =>
          cases hothers : (others.map FieldValue.trimmed).mapM FieldValue.text? with
          | none => simp [htext, hothers] at h
          | some texts =>
              simp only [htext, hothers, Option.map_some, Option.pure_def, Option.bind_eq_bind,
                Option.bind_some, Option.some.injEq, List.flatMap_cons, elements_trim] at h
              have hcontains : fields.contains .contentLength = true := by
                cases hfind : fields.find? .contentLength with
                | none => simp [Fields.values, hfind] at hvalues
                | some values => simp [Fields.contains, hfind]
              exact .inr ⟨hcontains, first, text, _, Fields.get?_of_values hvalues, htext, h.symm⟩

namespace Head

variable {k : Kind} {h h' : Head k} (hfields : h'.fields = h.fields.trimmed)

include hfields

theorem isChunked_trimmed : h'.isChunked = h.isChunked := by
  simp only [isChunked, hfields, Fields.get?_trimmed]
  cases h.fields.get? .transferEncoding with
  | none => rfl
  | some value => simp only [Option.map_some, FieldValue.trimmed, elements_trim]

theorem contentLength?_of_single {value : Bytes} {n : Nat}
    (helements : ContentLength.elements? h'.fields = some [value])
    (hnumber : ContentLength.number value = .ok n) : h.contentLength? = some n := by
  rw [hfields] at helements
  obtain ⟨-, hnone⟩ | ⟨-, first, text, later, hfirst, htext, hsplit⟩ :=
    ContentLength.elements?_trimmed helements
  · cases hnone
  rcases elements_cases text with ⟨-, hone⟩ | ⟨front, rest, -, -, hmore⟩
  · rw [hone] at hsplit
    cases hsplit
    exact contentLength?_of_text hfirst htext hnumber
  · rw [hmore] at hsplit
    simp only [List.cons_append, List.cons.injEq, List.nil_eq, List.append_eq_nil_iff] at hsplit
    exact absurd hsplit.2.1 (elements_ne_nil rest)

/-- If the writer understood the first field, a reader that understands all of them understood
the same. -/
theorem contentLength?_eq {value : Bytes} {more : List Bytes} {m n : Nat}
    (helements : ContentLength.elements? h'.fields = some (value :: more))
    (hnumber : ContentLength.number value = .ok n) (hlength : h.contentLength? = some m) :
    m = n := by
  rw [hfields] at helements
  obtain ⟨-, hnone⟩ | ⟨-, first, text, later, hfirst, htext, hsplit⟩ :=
    ContentLength.elements?_trimmed helements
  · cases hnone
  obtain ⟨first', text', hfirst', htext', hcomma⟩ := text_of_contentLength? hlength
  cases hfirst.symm.trans hfirst'
  cases htext.symm.trans htext'
  have hone : elements text = [trim text] := by
    rw [← elements_trim, elements, List.splitOn_eq_singleton hcomma, List.map_singleton, trim_trim]
  rw [hone] at hsplit
  cases hsplit
  have hsame := contentLength?_of_text hfirst htext hnumber
  exact Option.some.inj (hlength.symm.trans hsame)

end Head

end HttpFraming
