import HttpFraming.Head.Reader

/-!
# Scanners under more bytes

A scanner is steady when only an incomplete scan can change by the bytes that arrive
later: a value stays the same value, with more behind it, and a fault stays the same
fault. Every scanner of heads is steady; each lemma follows the combinator that built it.
-/

namespace HttpFraming

/-- A cut through two pieces goes through the first of them, or through what is behind it. -/
theorem cut_cases {first second front back : Bytes} (h : first ++ second = front ++ back) :
    (∃ behind, behind ≠ [] ∧ first = front ++ behind ∧ back = behind ++ second) ∨
      ∃ front', front = first ++ front' ∧ second = front' ++ back := by
  rcases List.append_eq_append_iff.mp h with ⟨front', hfront, hsecond⟩ | ⟨behind, hfirst, hback⟩
  · exact .inr ⟨front', hfront, hsecond⟩
  · by_cases hbehind : behind = []
    · exact .inr ⟨[], by simp [hfirst, hbehind], by simp [hback, hbehind]⟩
    · exact .inl ⟨behind, hbehind, hfirst, hback⟩

namespace Scan

def extend (scan : Scan ε α) (more : Bytes) : Scan ε α :=
  match scan with
  | complete value rest => complete value (rest ++ more)
  | incomplete => incomplete
  | invalid fault => invalid fault

theorem extend_map (scan : Scan ε α) (f : α → β) (more : Bytes) :
    (scan.map f).extend more = (scan.extend more).map f := by
  cases scan <;> rfl

end Scan

/-- Bytes that arrive later change no more than an incomplete scan. -/
def Scanner.Steady (scanner : Scanner ε α) : Prop :=
  ∀ bytes more, scanner bytes ≠ .incomplete → scanner (bytes ++ more) = (scanner bytes).extend more

namespace Scanner.Steady

theorem map {scanner : Scanner ε α} (h : scanner.Steady) (f : α → β) :
    Scanner.Steady fun bytes => (scanner bytes).map f := by
  intro bytes more hscan
  have hne : scanner bytes ≠ .incomplete := by
    intro hincomplete
    simp [hincomplete, Scan.map] at hscan
  dsimp only
  rw [h bytes more hne, Scan.extend_map]

theorem andThen {scanner : Scanner ε α} {next : α → Scanner ε β} (h : scanner.Steady)
    (hnext : ∀ value, (next value).Steady) :
    Scanner.Steady fun bytes => (scanner bytes).andThen next := by
  intro bytes more hscan
  dsimp only at hscan ⊢
  cases hfirst : scanner bytes with
  | incomplete => simp [hfirst, Scan.andThen] at hscan
  | invalid fault =>
      rw [h bytes more (by simp [hfirst]), hfirst]
      rfl
  | complete value rest =>
      rw [h bytes more (by simp [hfirst]), hfirst]
      have hsecond : next value rest ≠ .incomplete := by
        simpa [hfirst, Scan.andThen] using hscan
      exact hnext value rest more hsecond

theorem complete {scanner : Scanner ε α} (h : scanner.Steady) {bytes rest : Bytes} {value : α}
    (hscan : scanner bytes = .complete value rest) (more : Bytes) :
    scanner (bytes ++ more) = .complete value (rest ++ more) := by
  rw [h bytes more (by simp [hscan]), hscan]
  rfl

theorem incomplete_of_append {scanner : Scanner ε α} (h : scanner.Steady) {front back : Bytes}
    {value : α} (hscan : scanner (front ++ back) = .complete value []) (hback : back ≠ []) :
    scanner front = .incomplete := by
  cases hfront : scanner front with
  | incomplete => rfl
  | invalid fault =>
      rw [h front back (by simp [hfront]), hfront] at hscan
      cases hscan
  | complete early rest =>
      rw [h.complete hfront back] at hscan
      simp only [Scan.complete.injEq, List.append_eq_nil_iff] at hscan
      exact absurd hscan.2.2 hback

end Scanner.Steady

namespace Grammar

open Bytes

theorem takeWhile_append_of_stop {p : UInt8 → Bool} {bytes rest : Bytes} {b : UInt8}
    (h : bytes.dropWhile p = b :: rest) (more : Bytes) :
    (bytes ++ more).takeWhile p = bytes.takeWhile p ∧
      (bytes ++ more).dropWhile p = b :: (rest ++ more) := by
  induction bytes with
  | nil => simp at h
  | cons c tail ih =>
      by_cases hc : p c = true
      · simp only [List.dropWhile_cons, hc, if_true] at h
        simpa [List.takeWhile_cons, List.dropWhile_cons, hc] using ih h
      · simp only [List.dropWhile_cons, hc] at h
        simp only [List.cons_append, List.takeWhile_cons, List.dropWhile_cons, hc]
        simpa using congrArg (· ++ more) h

theorem lineEnd_steady (fault : SyntaxFault) : (lineEnd fault).Steady := by
  intro bytes more h
  rcases bytes with _ | ⟨b, _ | ⟨c, rest⟩⟩
  · exact absurd rfl h
  · by_cases hlf : b = lf
    · simp [lineEnd, hlf, Scan.extend]
    · by_cases hcr : b = cr
      · exact absurd (by simp [lineEnd, hcr, show cr ≠ lf by decide]) h
      · simp [lineEnd, hlf, hcr, Scan.extend]
  · by_cases hlf : b = lf
    · simp [lineEnd, hlf, Scan.extend]
    · by_cases hcr : b = cr
      · by_cases hc : c = lf <;>
          simp [lineEnd, hcr, hc, show cr ≠ lf by decide, Scan.extend]
      · simp [lineEnd, hlf, hcr, Scan.extend]

theorem skipEmptyLines_steady : skipEmptyLines.Steady := by
  intro bytes more h
  fun_induction skipEmptyLines bytes with
  | case1 => exact absurd rfl h
  | case2 rest ih =>
      rw [← ih h, List.cons_append, skipEmptyLines.eq_def]
      simp
  | case3 => exact absurd rfl h
  | case4 rest hne ih =>
      rw [← ih h, List.cons_append, skipEmptyLines.eq_def]
      simp [hne]
  | case5 c rest hne hc =>
      rw [List.cons_append, skipEmptyLines.eq_def]
      simp [hne, hc, Scan.extend]
  | case6 b rest hlf hcr =>
      rw [List.cons_append, skipEmptyLines.eq_def]
      simp [hlf, hcr, Scan.extend]

theorem runUntil_steady (isPart : UInt8 → Bool) (delimiter : UInt8) (fault : SyntaxFault) :
    (runUntil isPart delimiter fault).Steady := by
  intro bytes more h
  unfold runUntil at h ⊢
  cases hdrop : bytes.dropWhile isPart with
  | nil => simp [hdrop] at h
  | cons b rest =>
      obtain ⟨htake, hrest⟩ := takeWhile_append_of_stop hdrop more
      rw [htake, hrest]
      dsimp only
      split <;> rfl

theorem check_steady (value? : Option α) (fault : SyntaxFault) : (check value? fault).Steady := by
  intro bytes more _
  unfold check
  split <;> rfl

theorem byte_steady (f : UInt8 → Option α) (fault : SyntaxFault) : (byte f fault).Steady := by
  intro bytes more h
  cases bytes with
  | nil => exact absurd rfl h
  | cons b rest =>
      simp only [byte, List.cons_append]
      split <;> rfl

theorem method_steady : method.Steady :=
  (runUntil_steady _ _ _).andThen fun _ => check_steady _ _

theorem target_steady : target.Steady :=
  (runUntil_steady _ _ _).andThen fun _ => check_steady _ _

theorem take_append_ne_version {bytes more : Bytes} (word : Bytes) (hlength : bytes.length < 8)
    (hwrong : ¬ bytes <+: ascii "HTTP/1.") (hword : ascii "HTTP/1." <+: word) :
    (bytes ++ more).take 8 ≠ word := by
  rintro rfl
  have hfront : bytes <+: (bytes ++ more).take 8 := by
    rw [List.take_append, List.take_of_length_le (by omega)]
    exact List.prefix_append _ _
  exact hwrong (List.prefix_of_prefix_length_le hfront hword
    (by rw [show (ascii "HTTP/1.").length = 7 by decide]; omega))

theorem version_steady : version.Steady := by
  intro bytes more h
  by_cases hlength : 8 ≤ bytes.length
  · have htake : (bytes ++ more).take 8 = bytes.take 8 := List.take_append_of_le_length hlength
    have hdrop : (bytes ++ more).drop 8 = bytes.drop 8 ++ more :=
      List.drop_append_of_le_length hlength
    simp only [version, htake, hdrop]
    split
    · rfl
    · split
      · rfl
      · split <;> rfl
  · have hshort : bytes.length < 8 := by omega
    have htake : bytes.take 8 = bytes := List.take_of_length_le (Nat.le_of_lt hshort)
    have hword : ∀ word : Bytes, word.length = 8 → bytes ≠ word := by
      rintro word hword rfl
      omega
    have h11 := hword (ascii "HTTP/1.1") (by decide)
    have h10 := hword (ascii "HTTP/1.0") (by decide)
    have hwrong : ¬ bytes <+: ascii "HTTP/1." := by
      intro hprefix
      rw [← List.isPrefixOf_iff_prefix] at hprefix
      simp [version, h11, h10, htake, hprefix] at h
    have hstill : ¬ (bytes ++ more).take 8 <+: ascii "HTTP/1." := by
      intro hprefix
      refine hwrong (List.IsPrefix.trans ?_ hprefix)
      rw [List.take_append, htake]
      exact List.prefix_append _ _
    have hwas : version bytes = .invalid .version := by
      simp [version, h11, h10, htake, hwrong]
    rw [hwas]
    simp [version, take_append_ne_version (ascii "HTTP/1.1") hshort hwrong (by decide),
      take_append_ne_version (ascii "HTTP/1.0") hshort hwrong (by decide), hstill, Scan.extend]

theorem reason_steady : reason.Steady := by
  intro bytes more h
  cases bytes with
  | nil => exact absurd rfl h
  | cons b rest =>
      by_cases hspace : b = space
      · simp only [reason, hspace, if_true, List.cons_append] at h ⊢
        cases hdrop : rest.dropWhile isFieldByte with
        | nil => simp [hdrop, lineEnd] at h
        | cons c tail =>
            rw [(takeWhile_append_of_stop hdrop more).2, ← List.cons_append]
            rw [hdrop] at h
            exact lineEnd_steady _ _ _ h
      · simp only [reason, hspace, if_false, List.cons_append] at h ⊢
        rw [← List.cons_append]
        exact lineEnd_steady _ _ _ h

theorem requestLine_steady : requestLine.Steady :=
  skipEmptyLines_steady.andThen fun _ =>
    method_steady.andThen fun _ =>
      target_steady.andThen fun _ =>
        version_steady.andThen fun _ => (lineEnd_steady _).map _

theorem statusLine_steady : statusLine.Steady :=
  skipEmptyLines_steady.andThen fun _ =>
    version_steady.andThen fun _ =>
      (byte_steady _ _).andThen fun _ =>
        (byte_steady _ _).andThen fun _ =>
          (byte_steady _ _).andThen fun _ =>
            (byte_steady _ _).andThen fun _ => reason_steady.map _

theorem fieldName_steady : fieldName.Steady :=
  (runUntil_steady _ _ _).andThen fun _ => check_steady _ _

theorem fieldValue_steady : fieldValue.Steady := by
  intro bytes more h
  unfold fieldValue at h ⊢
  cases hdrop : bytes.dropWhile isFieldByte with
  | nil => simp [hdrop, lineEnd, Scan.map] at h
  | cons b rest =>
      obtain ⟨htake, hrest⟩ := takeWhile_append_of_stop hdrop more
      rw [hdrop] at h
      have hline : lineEnd .fieldValue (b :: rest) ≠ .incomplete := by
        intro hincomplete
        simp [hincomplete, Scan.map] at h
      simp only [htake, hrest, Scan.extend_map]
      rw [← List.cons_append, lineEnd_steady _ _ _ hline]

theorem fieldLine_steady : fieldLine.Steady :=
  fieldName_steady.andThen fun _ => fieldValue_steady.map _

theorem startsLineEnd_append {bytes : Bytes} (h : bytes ≠ []) (more : Bytes) :
    startsLineEnd (bytes ++ more) = startsLineEnd bytes := by
  cases bytes with
  | nil => exact absurd rfl h
  | cons b rest => rfl

theorem fieldLines_steady (room : Nat) : (fieldLines room).Steady := by
  induction room with
  | zero =>
      intro bytes more h
      have hne : bytes ≠ [] := by
        rintro rfl
        exact h rfl
      simp only [fieldLines, startsLineEnd_append hne] at h ⊢
      split
      · rename_i hline
        simp only [hline, if_true] at h
        exact (lineEnd_steady _).map (fun _ => []) bytes more h
      · rename_i hline
        simp only [hline] at h
        have hfields : Scanner.Steady fun bytes => (fieldLine bytes).andThen
            fun _ _ => (.invalid .tooManyFields : Scan SyntaxFault (List RawField)) :=
          fieldLine_steady.andThen fun _ _ _ _ => rfl
        exact hfields bytes more (by simpa using h)
  | succ room ih =>
      intro bytes more h
      have hne : bytes ≠ [] := by
        rintro rfl
        exact h rfl
      simp only [fieldLines, startsLineEnd_append hne] at h ⊢
      split
      · rename_i hline
        simp only [hline, if_true] at h
        exact (lineEnd_steady _).map (fun _ => []) bytes more h
      · rename_i hline
        simp only [hline] at h
        have hfields : Scanner.Steady fun bytes => (fieldLine bytes).andThen fun field rest =>
            (fieldLines room rest).map fun fields => field :: fields :=
          fieldLine_steady.andThen fun field => ih.map _
        exact hfields bytes more (by simpa using h)

end Grammar

theorem Kind.scanLine_steady (k : Kind) : k.scanLine.Steady := by
  cases k
  · exact Grammar.requestLine_steady.map _
  · exact Grammar.statusLine_steady

theorem RawHead.scan_steady (k : Kind) (room : Nat) : (RawHead.scan k room).Steady :=
  k.scanLine_steady.andThen fun _ => (Grammar.fieldLines_steady room).map _

end HttpFraming
