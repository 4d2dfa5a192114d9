import HttpFraming.Head.Grammar

/-!
# The written form of a target

A target is written without blanks and controls and as well-formed UTF-8, so that the
scanner of request lines finds its end: `Grammar.target_render`.
-/

namespace HttpFraming

open Bytes

/-! ## Text and runs of bytes -/

theorem Utf8.isWellFormed_append_of_ascii {front back : Bytes} (hfront : ∀ b ∈ front, b ≤ 0x7F)
    (hback : Utf8.isWellFormed back = true) : Utf8.isWellFormed (front ++ back) = true := by
  have hfold : front.foldlM Utf8.step [] = some [] := by
    simpa [Utf8.isWellFormed] using Utf8.isWellFormed_of_ascii hfront
  have hrest : back.foldlM Utf8.step [] = some [] := by
    simpa [Utf8.isWellFormed] using hback
  simp [Utf8.isWellFormed, List.foldlM_append, hfold, hrest]

theorem Grammar.runUntil_append {isPart : UInt8 → Bool} {delimiter : UInt8} {run : Bytes}
    (hrun : ∀ b ∈ run, isPart b = true) (hdelimiter : isPart delimiter = false)
    (fault : SyntaxFault) (rest : Bytes) :
    runUntil isPart delimiter fault (run ++ delimiter :: rest) = .complete run rest := by
  have htake : (run ++ delimiter :: rest).takeWhile isPart = run := by
    rw [List.takeWhile_append_of_pos hrun, List.takeWhile_cons]
    simp [hdelimiter]
  have hdrop : (run ++ delimiter :: rest).dropWhile isPart = delimiter :: rest := by
    rw [List.dropWhile_append_of_pos hrun, List.dropWhile_cons]
    simp [hdelimiter]
  simp [runUntil, htake, hdrop]

/-! ## Classes of bytes -/

/-- What holds of each of the 256 bytes holds of all bytes. -/
theorem forall_byte {p : UInt8 → Prop} (h : ∀ n : Fin 256, p (UInt8.ofFin n)) : ∀ b, p b := by
  intro b
  have hb := h b.toFin
  rwa [UInt8.ofFin_toFin] at hb

namespace Target

theorem isTargetByte_of_isPathByte : ∀ b, isPathByte b = true → isTargetByte b = true := by
  refine forall_byte ?_
  decide +kernel

theorem isTargetByte_of_isQueryByte : ∀ b, isQueryByte b = true → isTargetByte b = true := by
  refine forall_byte ?_
  decide +kernel

theorem isTargetByte_of_isSchemeByte :
    ∀ b, isSchemeByte b = true → isTargetByte b = true ∧ b ≤ 0x7F := by
  refine forall_byte ?_
  decide +kernel

theorem isTargetByte_of_isAuthorityByte :
    ∀ b, isAuthorityByte b = true → isTargetByte b = true ∧ b ≤ 0x7F := by
  refine forall_byte ?_
  decide +kernel

theorem AuthorityScan.byte_of_step {scan next : AuthorityScan} {b : UInt8}
    (h : scan.step b = some next) : isTargetByte b = true ∧ b ≤ 0x7F := by
  unfold step at h
  by_cases h1 : b = colon
  · subst h1
    decide
  by_cases h2 : b = 91
  · subst h2
    decide
  by_cases h3 : b = 93
  · subst h3
    decide
  by_cases h4 : b = 64
  · subst h4
    decide
  by_cases h5 : b = 37
  · subst h5
    decide
  by_cases h6 : isAuthorityByte b = true
  · exact isTargetByte_of_isAuthorityByte b h6
  · simp [h1, h2, h3, h4, h5, h6] at h

theorem AuthorityScan.bytes_of_fold {scan last : AuthorityScan} {bytes : Bytes}
    (h : bytes.foldlM step scan = some last) :
    ∀ b ∈ bytes, isTargetByte b = true ∧ b ≤ 0x7F := by
  induction bytes generalizing scan with
  | nil => simp
  | cons b rest ih =>
      rw [List.foldlM_cons] at h
      cases hstep : scan.step b with
      | none => simp [hstep] at h
      | some next =>
          rw [hstep] at h
          intro c hc
          rcases List.mem_cons.mp hc with rfl | hc
          · exact byte_of_step hstep
          · exact ih h c hc

theorem bytes_of_isAuthority {authority : Bytes} (h : isAuthority authority = true) :
    authority ≠ [] ∧ ∀ b ∈ authority, isTargetByte b = true ∧ b ≤ 0x7F := by
  simp only [isAuthority, Bool.and_eq_true] at h
  refine ⟨by simpa using h.1.1, ?_⟩
  cases hfold : authority.foldlM AuthorityScan.step {} with
  | none => simp [hfold] at h
  | some last => exact AuthorityScan.bytes_of_fold hfold

theorem bytes_of_isScheme {scheme : Bytes} (h : isScheme scheme = true) :
    ∀ b ∈ scheme, isTargetByte b = true ∧ b ≤ 0x7F := by
  simp only [isScheme, Bool.and_eq_true, List.all_eq_true] at h
  exact fun b hb => isTargetByte_of_isSchemeByte b (h.2 b hb)

namespace Resource

theorem bytes_of_isWellFormed {resource : Resource} (h : resource.isWellFormed = true) :
    ∀ b ∈ resource.render, isTargetByte b = true := by
  simp only [isWellFormed, Bool.and_eq_true, List.all_eq_true] at h
  obtain ⟨⟨hpath, hquery⟩, _⟩ := h
  intro b hb
  rw [render, List.mem_append] at hb
  rcases hb with hb | hb
  · exact isTargetByte_of_isPathByte b (hpath b hb)
  · cases hq : resource.query? with
    | none => simp [hq] at hb
    | some query =>
        simp only [hq, Option.all_some, List.all_eq_true] at hquery
        simp only [hq, Option.elim_some, List.mem_cons] at hb
        rcases hb with rfl | hb
        · decide
        · exact isTargetByte_of_isQueryByte b (hquery b hb)

theorem utf8_of_isWellFormed {resource : Resource} (h : resource.isWellFormed = true) :
    Utf8.isWellFormed resource.render = true := by
  simp only [isWellFormed, Bool.and_eq_true] at h
  exact h.2

theorem render_eq_nil {resource : Resource} (h : resource.render = []) : resource.path = [] := by
  rw [render, List.append_eq_nil_iff] at h
  exact h.1

theorem render_slash (resource : Resource) :
    ({ resource with path := if resource.path.isEmpty then [slash] else resource.path } :
      Resource).render = (if resource.path.isEmpty then [slash] else []) ++ resource.render := by
  by_cases h : resource.path = [] <;> simp [render, h]

end Resource

theorem bytes_before_resource {scheme authority : Bytes} (hscheme : isScheme scheme = true)
    (hauthority : isAuthority authority = true) (resource : Resource) :
    ∀ b ∈ scheme ++ ascii "://" ++ authority ++
      (if resource.path.isEmpty then [slash] else []), isTargetByte b = true ∧ b ≤ 0x7F := by
  have hcolon : isTargetByte 58 = true ∧ (58 : UInt8) ≤ 0x7F := by decide
  have hsolidus : isTargetByte slash = true ∧ slash ≤ 0x7F := by decide
  have hmarks : ∀ b ∈ ascii "://", isTargetByte b = true ∧ b ≤ 0x7F := by
    rw [show ascii "://" = [58, slash, slash] by rfl]
    simp only [List.forall_mem_cons]
    exact ⟨hcolon, hsolidus, hsolidus, by simp⟩
  have hslash : ∀ b ∈ (if resource.path.isEmpty then [slash] else []),
      isTargetByte b = true ∧ b ≤ 0x7F := by
    split
    · simpa using hsolidus
    · simp
  intro b hb
  simp only [List.mem_append] at hb
  rcases hb with ((hb | hb) | hb) | hb
  · exact bytes_of_isScheme hscheme b hb
  · exact hmarks b hb
  · exact (bytes_of_isAuthority hauthority).2 b hb
  · exact hslash b hb

/-- What a reader of request lines needs of a written target. -/
theorem Form.render_spec {form : Form} (h : form.isWellFormed = true) :
    form.render ≠ [] ∧ (∀ b ∈ form.render, isTargetByte b = true) ∧
      Utf8.isWellFormed form.render = true := by
  cases form with
  | resource r =>
      simp only [isWellFormed, Bool.and_eq_true] at h
      refine ⟨?_, Resource.bytes_of_isWellFormed h.2, Resource.utf8_of_isWellFormed h.2⟩
      intro hnil
      have hpath : r.path = [] := Resource.render_eq_nil hnil
      simp [startsResource, hpath, ascii] at h
  | authority a =>
      obtain ⟨hne, hbytes⟩ := bytes_of_isAuthority h
      exact ⟨hne, fun b hb => (hbytes b hb).1,
        Utf8.isWellFormed_of_ascii fun b hb => (hbytes b hb).2⟩
  | absolute s a r =>
      simp only [isWellFormed, Bool.and_eq_true] at h
      obtain ⟨⟨⟨hs, ha⟩, hr⟩, _⟩ := h
      have hfront := bytes_before_resource hs ha r
      have hrender : Form.render (.absolute s a r) =
          (s ++ ascii "://" ++ a ++ (if r.path.isEmpty then [slash] else [])) ++ r.render := by
        simp only [Form.render, Resource.render_slash, List.append_assoc]
      rw [hrender]
      refine ⟨?_, ?_, Utf8.isWellFormed_append_of_ascii (fun b hb => (hfront b hb).2)
        (Resource.utf8_of_isWellFormed hr)⟩
      · simp [show ascii "://" ≠ [] by decide]
      · intro b hb
        rcases List.mem_append.mp hb with hb | hb
        · exact (hfront b hb).1
        · exact Resource.bytes_of_isWellFormed hr b hb

end Target

theorem Grammar.target_render (target : Target) (rest : Bytes) :
    Grammar.target (target.render ++ space :: rest) = .complete target.render rest := by
  obtain ⟨hne, hbytes, hutf8⟩ := Target.Form.render_spec target.valid
  have hempty : target.form.render.isEmpty = false := by simpa using hne
  show (runUntil isTargetByte space .token (target.form.render ++ space :: rest)).andThen _ =
    .complete target.form.render rest
  rw [runUntil_append hbytes (by decide)]
  simp [Scan.andThen, check, hempty, hutf8]

end HttpFraming
