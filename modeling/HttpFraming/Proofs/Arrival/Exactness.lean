import HttpFraming.Proofs.Arrival.Scanning

/-!
# Scanners that look no further

A scanner is exact when a complete scan hangs on nothing but the bytes that it takes: alone
they are scanned to the same value and to their end. Together with `Scanner.Steady` this makes a
complete scan a split of the bytes. The scanners of field lines are exact.
-/

namespace HttpFraming

/-- The bytes that a complete scan takes are enough for it. -/
def Scanner.Exact (scanner : Scanner ε α) : Prop :=
  ∀ bytes value rest, scanner bytes = .complete value rest →
    ∃ taken, bytes = taken ++ rest ∧ scanner taken = .complete value []

namespace Scanner.Exact

theorem map {scanner : Scanner ε α} (h : scanner.Exact) (f : α → β) :
    Scanner.Exact fun bytes => (scanner bytes).map f := by
  intro bytes value rest hscan
  dsimp only at hscan ⊢
  cases hfirst : scanner bytes with
  | incomplete => simp [hfirst, Scan.map] at hscan
  | invalid fault => simp [hfirst, Scan.map] at hscan
  | complete first middle =>
      rw [hfirst] at hscan
      cases hscan
      obtain ⟨taken, hsplit, htaken⟩ := h bytes first rest hfirst
      exact ⟨taken, hsplit, by rw [htaken]; rfl⟩

/-- The first scanner has to be steady, since bytes of the second one stand behind its own. -/
theorem andThen {scanner : Scanner ε α} {next : α → Scanner ε β} (h : scanner.Exact)
    (hsteady : scanner.Steady) (hnext : ∀ value, (next value).Exact) :
    Scanner.Exact fun bytes => (scanner bytes).andThen next := by
  intro bytes value rest hscan
  dsimp only at hscan ⊢
  cases hfirst : scanner bytes with
  | incomplete => simp [hfirst, Scan.andThen] at hscan
  | invalid fault => simp [hfirst, Scan.andThen] at hscan
  | complete first middle =>
      have hsecond : next first middle = .complete value rest := by
        simpa [hfirst, Scan.andThen] using hscan
      obtain ⟨front, hfrontSplit, hfront⟩ := h bytes first middle hfirst
      obtain ⟨back, hbackSplit, hback⟩ := hnext first middle value rest hsecond
      refine ⟨front ++ back, by rw [hfrontSplit, hbackSplit, List.append_assoc], ?_⟩
      rw [hsteady.complete hfront back]
      exact hback

theorem invalid (fault : ε) : Scanner.Exact fun _ => (.invalid fault : Scan ε α) := by
  intro bytes value rest hscan
  cases hscan

end Scanner.Exact

namespace Grammar

open Bytes

theorem takeWhile_of_stop {p : UInt8 → Bool} {bytes front rest : Bytes}
    (h : bytes.dropWhile p = front ++ rest) (hfront : front ≠ []) :
    bytes = bytes.takeWhile p ++ front ++ rest ∧
      (bytes.takeWhile p ++ front).takeWhile p = bytes.takeWhile p ∧
      (bytes.takeWhile p ++ front).dropWhile p = front := by
  obtain ⟨b, tail, rfl⟩ := List.exists_cons_of_ne_nil hfront
  have hstop : p b = false := by
    have hhead : p ((bytes.dropWhile p).head (by simp [h])) = false :=
      List.head_dropWhile_not ..
    simpa [h] using hhead
  have hall : ∀ c ∈ bytes.takeWhile p, p c = true :=
    List.all_eq_true.mp List.all_takeWhile
  refine ⟨?_, ?_, ?_⟩
  · rw [List.append_assoc, ← h, List.takeWhile_append_dropWhile]
  · rw [List.takeWhile_append_of_pos hall, List.takeWhile_cons, hstop]
    simp
  · rw [List.dropWhile_append_of_pos hall, List.dropWhile_cons, hstop]
    simp

theorem lineEnd_exact (fault : SyntaxFault) : (lineEnd fault).Exact := by
  intro bytes value rest hscan
  rcases bytes with _ | ⟨b, more⟩
  · cases hscan
  · by_cases hlf : b = lf
    · simp only [lineEnd, hlf, if_true, Scan.complete.injEq, true_and] at hscan
      exact ⟨[lf], by rw [hlf, hscan]; rfl, rfl⟩
    · by_cases hcr : b = cr
      · rcases more with _ | ⟨c, more⟩
        · simp [lineEnd, hcr, show cr ≠ lf by decide] at hscan
        · by_cases hc : c = lf
          · simp [lineEnd, hcr, hc, show cr ≠ lf by decide] at hscan
            exact ⟨crlf, by rw [hcr, hc, hscan]; rfl, rfl⟩
          · simp [lineEnd, hcr, hc, show cr ≠ lf by decide] at hscan
      · simp [lineEnd, hlf, hcr] at hscan

theorem runUntil_exact (isPart : UInt8 → Bool) (delimiter : UInt8) (fault : SyntaxFault) :
    (runUntil isPart delimiter fault).Exact := by
  intro bytes value rest hscan
  unfold runUntil at hscan ⊢
  cases hdrop : bytes.dropWhile isPart with
  | nil => simp [hdrop] at hscan
  | cons b more =>
      simp only [hdrop] at hscan
      split at hscan
      · rename_i hdelimiter
        cases hscan
        have hfront : bytes.dropWhile isPart = [b] ++ rest := hdrop
        obtain ⟨hsplit, htake, hstop⟩ := takeWhile_of_stop hfront (List.cons_ne_nil b [])
        refine ⟨bytes.takeWhile isPart ++ [b], hsplit, ?_⟩
        rw [hstop, htake]
        exact if_pos hdelimiter
      · cases hscan

theorem check_exact (value? : Option α) (fault : SyntaxFault) : (check value? fault).Exact := by
  intro bytes value rest hscan
  unfold check at hscan ⊢
  split at hscan
  · cases hscan
    exact ⟨[], rfl, rfl⟩
  · cases hscan

theorem fieldName_exact : fieldName.Exact :=
  (runUntil_exact _ _ _).andThen (runUntil_steady _ _ _) fun _ => check_exact _ _

theorem fieldValue_exact : fieldValue.Exact := by
  intro bytes value rest hscan
  unfold fieldValue at hscan ⊢
  cases hline : lineEnd .fieldValue (bytes.dropWhile isFieldByte) with
  | incomplete => simp [hline, Scan.map] at hscan
  | invalid fault => simp [hline, Scan.map] at hscan
  | complete _ left =>
      rw [hline] at hscan
      cases hscan
      obtain ⟨front, hdrop, hfront⟩ := lineEnd_exact _ _ _ _ hline
      have hne : front ≠ [] := by
        rintro rfl
        cases hfront
      obtain ⟨hsplit, htake, hstop⟩ := takeWhile_of_stop hdrop hne
      refine ⟨bytes.takeWhile isFieldByte ++ front, hsplit, ?_⟩
      simp only [hstop, hfront, htake, Scan.map]

theorem fieldLine_exact : fieldLine.Exact :=
  fieldName_exact.andThen fieldName_steady fun _ => fieldValue_exact.map _

theorem exact_of_startsLineEnd {ends fields : Scanner α} (hends : ends.Exact)
    (hfields : fields.Exact) (hendsNil : ends [] = .incomplete)
    (hfieldsNil : fields [] = .incomplete) :
    Scanner.Exact fun bytes => if startsLineEnd bytes then ends bytes else fields bytes := by
  have hstarts : ∀ {scanner : Scanner α} {taken rest : Bytes} {value : α},
      scanner [] = .incomplete → scanner taken = .complete value [] →
        startsLineEnd (taken ++ rest) = startsLineEnd taken := by
    intro scanner taken rest value hnil htaken
    refine startsLineEnd_append ?_ rest
    rintro rfl
    cases hnil.symm.trans htaken
  intro bytes value rest hscan
  dsimp only at hscan ⊢
  split at hscan
  · rename_i hline
    obtain ⟨taken, rfl, htaken⟩ := hends bytes value rest hscan
    rw [hstarts hendsNil htaken] at hline
    exact ⟨taken, rfl, by rw [if_pos hline, htaken]⟩
  · rename_i hline
    obtain ⟨taken, rfl, htaken⟩ := hfields bytes value rest hscan
    rw [hstarts hfieldsNil htaken] at hline
    exact ⟨taken, rfl, by rw [if_neg hline, htaken]⟩

theorem fieldLines_exact (room : Nat) : (fieldLines room).Exact := by
  induction room with
  | zero =>
      have hfull : Scanner.Exact fun _ =>
          (.invalid .tooManyFields : Scan SyntaxFault (List RawField)) :=
        Scanner.Exact.invalid _
      have hfields := fieldLine_exact.andThen fieldLine_steady fun _ => hfull
      exact exact_of_startsLineEnd ((lineEnd_exact _).map _) hfields rfl rfl
  | succ room ih =>
      have hfields := fieldLine_exact.andThen fieldLine_steady
        fun field => ih.map fun fields => field :: fields
      exact exact_of_startsLineEnd ((lineEnd_exact _).map _) hfields rfl rfl

end Grammar

end HttpFraming
