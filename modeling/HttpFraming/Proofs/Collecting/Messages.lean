import HttpFraming.Proofs.Collecting.Requests
import Mathlib.Data.List.Forall2

/-!
# What a collector makes of any message

For a request or a response, with any settings, what a collector hands out depends on the
head, the body as a whole and the trailers: these make up the verdicts on the message. The
pieces of the body decide only when a verdict falls. Behind a verdict that closes the
collector every part is an error, and behind any other the next message finds the collector
as the first one did: `Collector.takeAll_messages`.
-/

namespace HttpFraming

open Bytes

variable {k : Kind} {ρ : Type} {select : HeadRule k ρ}

/-! ## Verdicts -/

/-- What a message comes to. A response that is too large is given up at some length, which
is not more than the one told here. -/
inductive Verdict (k : Kind)
  | message (head : Head k) (body : Bytes) (trailers : Fields)
  | reply (reply : Reply)
  | tooLarge (most : Nat)
deriving DecidableEq

namespace Verdict

def closes : Verdict k → Bool
  | message .. => false
  | reply made => made.close
  | tooLarge _ => true

/-- The answers that stand for a verdict. A body is handed out in pieces, whichever. -/
inductive Given (settings : CollectSettings) :
    Verdict k → Except CollectError (Option (Collected k)) → Prop
  | message {head : Head k} {body : Bytes} {trailers : Fields} {chunks : List Bytes}
      (hbody : chunks.flatten = body) :
      Given settings (.message head body trailers)
        (.ok (some (.message ⟨head, chunks, body.length, trailers, none⟩)))
  | reply (reply : Reply) : Given settings (.reply reply) (.ok (some (.reply reply)))
  | tooLarge {attempted most : Nat} (hover : settings.exceeds attempted = true)
      (hmost : attempted ≤ most) :
      Given settings (.tooLarge most)
        (.error (.responseTooLarge attempted settings.maxLength))

end Verdict

namespace Head

def admitted (h : Head k) : Head k :=
  if h.expectation = .awaitContinue then { h with fields := h.fields.remove .expect } else h

def collected (h : Head k) (length : Nat) : Head k :=
  h.admitted.announce (.length length)

theorem keepAlive_admitted (h : Head k) : h.admitted.keepAlive = h.keepAlive := by
  unfold admitted
  split
  · exact h.keepAlive_remove_expect
  · rfl

end Head

namespace CollectSettings

def oversize (settings : CollectSettings) (h : Head k) (awaited : Bool) (length : Nat) :
    Verdict k :=
  if k = .request then .reply (.tooLarge (settings.closesOnTooLarge h.keepAlive awaited))
  else .tooLarge length

def bodyVerdict (settings : CollectSettings) (h : Head k) (awaited : Bool) (body : Bytes)
    (trailers : Fields) : Verdict k :=
  if settings.exceeds body.length then settings.oversize h awaited body.length
  else .message (h.announce (.length body.length)) body trailers

def verdicts (settings : CollectSettings) (h : Head k) (body : Bytes) (trailers : Fields) :
    List (Verdict k) :=
  let awaited := h.expectation == .awaitContinue
  if h.expectation = .unsupported then [.reply (.expectationFailed settings.closeOnRefusal)]
  else
    match h.contentLength?.filter settings.exceeds with
    | some length => [settings.oversize h awaited length]
    | none =>
        (if awaited then [.reply .proceed] else []) ++
          [if settings.exceeds body.length then settings.oversize h awaited body.length
          else .message (h.collected body.length) body trailers]

theorem bodyVerdict_admitted (settings : CollectSettings) (h : Head k) (awaited : Bool)
    (body : Bytes) (trailers : Fields) :
    settings.bodyVerdict h.admitted awaited body trailers =
      if settings.exceeds body.length then settings.oversize h awaited body.length
      else .message (h.collected body.length) body trailers := by
  simp only [bodyVerdict, oversize, h.keepAlive_admitted, Head.collected]

def closesOn (settings : CollectSettings) (parts : Parts k) : Bool :=
  (settings.verdicts parts.head parts.body parts.trailers).any Verdict.closes

end CollectSettings

/-! ## Runs -/

namespace Collector

/-- Takes parts one after the other, also behind an error, with one answer for each. -/
def takeAll (collector : Collector k ρ) (select : HeadRule k ρ) :
    List (Message k) → List (Except CollectError (Option (Collected k))) × Collector k ρ
  | [] => ([], collector)
  | message :: more =>
      let (answer, next) := collector.take select message
      let (answers, last) := next.takeAll select more
      (answer :: answers, last)

theorem takeAll_cons {collector next : Collector k ρ} {message : Message k}
    {answer : Except CollectError (Option (Collected k))}
    (h : collector.take select message = (answer, next)) (more : List (Message k)) :
    collector.takeAll select (message :: more) =
      (answer :: (next.takeAll select more).1, (next.takeAll select more).2) := by
  simp only [takeAll, h]

theorem takeAll_append (collector : Collector k ρ) (first second : List (Message k)) :
    collector.takeAll select (first ++ second) =
      ((collector.takeAll select first).1 ++
          ((collector.takeAll select first).2.takeAll select second).1,
        ((collector.takeAll select first).2.takeAll select second).2) := by
  induction first generalizing collector with
  | nil => rfl
  | cons message more ih => simp only [List.cons_append, takeAll, ih]

theorem takeAll_closed (settings : CollectSettings) (rule : ρ) (messages : List (Message k)) :
    (⟨settings, rule, .closed⟩ : Collector k ρ).takeAll select messages =
      (List.replicate messages.length (.error .channelClosed), ⟨settings, rule, .closed⟩) := by
  induction messages with
  | nil => rfl
  | cons message more ih =>
      have htake : (⟨settings, rule, .closed⟩ : Collector k ρ).take select message =
          (.error .channelClosed, ⟨settings, rule, .closed⟩) := by
        simp [take, isClosed]
      rw [takeAll_cons htake, ih, List.length_cons, List.replicate_succ]

end Collector

def Collected.isSpoken : Except CollectError (Option (Collected k)) → Bool
  | .ok none => false
  | _ => true

/-- Answers that are these verdicts, and errors behind one that closes the collector. -/
def CollectSettings.Answered (settings : CollectSettings) (verdicts : List (Verdict k))
    (answers : List (Except CollectError (Option (Collected k)))) : Prop :=
  ∃ given lost, answers.filter Collected.isSpoken =
      given ++ List.replicate lost (.error .channelClosed) ∧
    List.Forall₂ (Verdict.Given settings) verdicts given ∧
    (verdicts.any Verdict.closes = false → lost = 0)

/-- From one phase, these parts come to these verdicts: each that closes the collector is the
last, and without one the collector ends between messages. -/
inductive Settles (select : HeadRule k ρ) (settings : CollectSettings) (rule : ρ) :
    CollectPhase k → List (Message k) → List (Verdict k) → Prop
  | done : Settles select settings rule .idle [] []
  | quiet {phase next : CollectPhase k} {message : Message k} {more : List (Message k)}
      {verdicts : List (Verdict k)}
      (htake : (⟨settings, rule, phase⟩ : Collector k ρ).take select message =
        (.ok none, ⟨settings, rule, next⟩))
      (hmore : Settles select settings rule next more verdicts) :
      Settles select settings rule phase (message :: more) verdicts
  | gives {phase next : CollectPhase k} {message : Message k} {more : List (Message k)}
      {verdict : Verdict k} {verdicts : List (Verdict k)}
      {answer : Except CollectError (Option (Collected k))}
      (htake : (⟨settings, rule, phase⟩ : Collector k ρ).take select message =
        (answer, ⟨settings, rule, next⟩))
      (hgiven : verdict.Given settings answer) (hopen : verdict.closes = false)
      (hmore : Settles select settings rule next more verdicts) :
      Settles select settings rule phase (message :: more) (verdict :: verdicts)
  | ends {phase : CollectPhase k} {message : Message k} {more : List (Message k)}
      {verdict : Verdict k} {answer : Except CollectError (Option (Collected k))}
      (htake : (⟨settings, rule, phase⟩ : Collector k ρ).take select message =
        (answer, ⟨settings, rule, .closed⟩))
      (hgiven : verdict.Given settings answer) (hcloses : verdict.closes = true) :
      Settles select settings rule phase (message :: more) [verdict]

theorem Verdict.Given.isSpoken {settings : CollectSettings} {verdict : Verdict k}
    {answer : Except CollectError (Option (Collected k))} (h : verdict.Given settings answer) :
    Collected.isSpoken answer = true := by
  cases h <;> rfl

/-- What settles is answered, and leaves the collector between messages or closed. -/
theorem Settles.takeAll {settings : CollectSettings} {rule : ρ} {phase : CollectPhase k}
    {messages : List (Message k)} {verdicts : List (Verdict k)}
    (h : Settles select settings rule phase messages verdicts) :
    settings.Answered verdicts
        ((⟨settings, rule, phase⟩ : Collector k ρ).takeAll select messages).1 ∧
      ((⟨settings, rule, phase⟩ : Collector k ρ).takeAll select messages).2 =
        ⟨settings, rule, if verdicts.any Verdict.closes then .closed else .idle⟩ := by
  induction h with
  | done => exact ⟨⟨[], 0, rfl, .nil, fun _ => rfl⟩, rfl⟩
  | quiet htake _ ih =>
      rw [Collector.takeAll_cons htake]
      obtain ⟨⟨given, lost, hanswers, hgiven, hlost⟩, hlast⟩ := ih
      exact ⟨⟨given, lost, by simpa [Collected.isSpoken] using hanswers, hgiven, hlost⟩, hlast⟩
  | gives htake hfirst hopen _ ih =>
      rw [Collector.takeAll_cons htake]
      obtain ⟨⟨given, lost, hanswers, hgiven, hlost⟩, hlast⟩ := ih
      refine ⟨⟨_ :: given, lost, ?_, .cons hfirst hgiven, ?_⟩, ?_⟩
      · rw [List.filter_cons_of_pos hfirst.isSpoken, hanswers, List.cons_append]
      · simpa [hopen] using hlost
      · simpa [hopen] using hlast
  | @ends phase message more verdict answer htake hfirst hcloses =>
      rw [Collector.takeAll_cons htake, Collector.takeAll_closed]
      refine ⟨⟨[answer], more.length, ?_, .cons hfirst .nil, ?_⟩, ?_⟩
      · rw [List.filter_cons_of_pos hfirst.isSpoken, List.filter_replicate_of_pos rfl]
        rfl
      · simp [hcloses]
      · simp [hcloses]

/-! ## One message -/

namespace Settles

variable {settings : CollectSettings} {rule : ρ}

theorem dropping (chunks : List Bytes) (tail : Bytes) (trailers : Fields) :
    Settles select settings rule .dropping (Message.payloads chunks tail trailers) [] := by
  induction chunks with
  | nil => exact .quiet rfl .done
  | cons data chunks ih => exact .quiet rfl ih

theorem overflow {h : Head k} {content : Content} {awaited : Bool} {item : Item} {most : Nat}
    {more : List (Message k)}
    (hover : settings.exceeds (content.push item.data).length = true)
    (hmost : (content.push item.data).length ≤ most)
    (hrest : Settles select settings rule (if item.isLast then .idle else .dropping) more []) :
    Settles select settings rule (.collecting h content awaited) (.payload item :: more)
      [settings.oversize h awaited most] := by
  have htake : (⟨settings, rule, .collecting h content awaited⟩ : Collector k ρ).take select
      (.payload item) = (⟨settings, rule, .collecting h content awaited⟩ : Collector k ρ).overflow
        h (content.push item.data).length awaited item.isLast := by
    simp [Collector.take, Collector.isClosed, Collector.takeItem, hover]
  unfold Collector.overflow at htake
  by_cases hk : k = .request
  · rw [if_pos hk] at htake
    simp only [CollectSettings.oversize, if_pos hk]
    by_cases hclose : settings.closesOnTooLarge h.keepAlive awaited = true
    · rw [hclose] at htake ⊢
      exact .ends htake (.reply _) rfl
    · rw [Bool.eq_false_iff.mpr hclose] at htake ⊢
      exact .gives htake (.reply _) rfl hrest
  · rw [if_neg hk] at htake
    simp only [CollectSettings.oversize, if_neg hk]
    exact .ends htake (.tooLarge hover hmost) rfl

/-- A body that was let in is judged as a whole, in whichever pieces it comes. -/
theorem payloads {h : Head k} {content : Content} {awaited : Bool}
    (hlength : content.length = content.chunks.flatten.length)
    (hfits : settings.exceeds content.length = false) (pieces : List Bytes) (tail : Bytes)
    (trailers : Fields) :
    Settles select settings rule (.collecting h content awaited)
      (Message.payloads pieces tail trailers)
      [settings.bodyVerdict h awaited (content.chunks.flatten ++ (pieces.flatten ++ tail))
        trailers] := by
  induction pieces generalizing content with
  | nil =>
      have htotal : (content.push tail).length = (content.chunks.flatten ++ tail).length := by
        rw [Content.push_length, hlength, List.length_append]
      rw [CollectSettings.bodyVerdict, List.flatten_nil, List.nil_append, ← htotal]
      by_cases hover : settings.exceeds (content.push tail).length = true
      · rw [if_pos hover]
        exact overflow hover (Nat.le_refl _) .done
      · rw [if_neg hover, htotal]
        have hfits : settings.exceeds (content.push tail).length = false := by simpa using hover
        have htake : (⟨settings, rule, .collecting h content awaited⟩ : Collector k ρ).take select
            (.payload (.last tail trailers)) =
              (.ok (some (.message ((content.push tail).finish h trailers))),
                ⟨settings, rule, .idle⟩) := by
          simp [Collector.take, Collector.isClosed, Collector.takeItem, Item.data, hfits,
            Collector.enter]
        rw [Content.finish, htotal] at htake
        exact .gives htake (.message (Content.push_chunks content tail)) rfl .done
  | cons data pieces ih =>
      have hpushed : (content.push data).length = (content.push data).chunks.flatten.length := by
        rw [Content.push_length, Content.push_chunks, hlength, List.length_append]
      have hbody : content.chunks.flatten ++ ((data :: pieces).flatten ++ tail) =
          (content.push data).chunks.flatten ++ (pieces.flatten ++ tail) := by
        simp only [Content.push_chunks, List.flatten_cons, List.append_assoc]
      rw [hbody]
      by_cases hover : settings.exceeds (content.push data).length = true
      · have hmost : (content.push data).length ≤
            ((content.push data).chunks.flatten ++ (pieces.flatten ++ tail)).length := by
          rw [hpushed, List.length_append]
          exact Nat.le_add_right _ _
        have hwhole : settings.exceeds
            ((content.push data).chunks.flatten ++ (pieces.flatten ++ tail)).length = true := by
          simp only [CollectSettings.exceeds, decide_eq_true_eq] at hover ⊢
          exact Nat.lt_of_lt_of_le hover hmost
        rw [CollectSettings.bodyVerdict, if_pos hwhole]
        exact overflow hover hmost (dropping pieces tail trailers)
      · have hfits : settings.exceeds (content.push data).length = false := by simpa using hover
        exact .quiet (Collects.take_chunk hfits) (ih hpushed hfits)

theorem announced {h : Head k} (hsupported : h.expectation ≠ .unsupported) {length : Nat}
    (hfilter : h.contentLength?.filter settings.exceeds = some length) (chunks : List Bytes)
    (tail : Bytes) (trailers : Fields) :
    Settles (selectAll k) settings () .idle (.header h :: Message.payloads chunks tail trailers)
      [settings.oversize h (h.expectation == .awaitContinue) length] := by
  have hhead := @Collects.take_head k settings h
  have hover : settings.exceeds length = true := (Option.filter_eq_some_iff.mp hfilter).2
  simp only [CollectSettings.inspect, hsupported, hfilter, if_false] at hhead
  by_cases hk : k = .request
  · simp only [if_pos hk] at hhead
    simp only [CollectSettings.oversize, if_pos hk]
    cases hclose : settings.closesOnTooLarge h.keepAlive (h.expectation == .awaitContinue) with
    | true =>
        rw [hclose] at hhead
        exact .ends hhead (.reply _) rfl
    | false =>
        rw [hclose] at hhead
        exact .gives hhead (.reply _) rfl (dropping _ _ _)
  · simp only [if_neg hk] at hhead
    simp only [CollectSettings.oversize, if_neg hk]
    exact .ends hhead (.tooLarge hover (Nat.le_refl _)) rfl

/-- A message that is let in has its body asked for, if it waits for that, and judged. -/
theorem admitted {h : Head k} (hsupported : h.expectation ≠ .unsupported)
    (hfilter : h.contentLength?.filter settings.exceeds = none) (chunks : List Bytes)
    (tail : Bytes) (trailers : Fields) :
    Settles (selectAll k) settings () .idle (.header h :: Message.payloads chunks tail trailers)
      ((if h.expectation == .awaitContinue then [.reply .proceed] else []) ++
        [settings.bodyVerdict h.admitted (h.expectation == .awaitContinue)
          (chunks.flatten ++ tail) trailers]) := by
  have hhead := @Collects.take_head k settings h
  have hempty : settings.exceeds ({} : Content).length = false := by
    simp [CollectSettings.exceeds]
  have hbody := @payloads k Unit (selectAll k) settings () h.admitted {}
    (h.expectation == .awaitContinue) rfl hempty chunks tail trailers
  simp only [List.flatten_nil, List.nil_append] at hbody
  by_cases hawaited : h.expectation = .awaitContinue
  · have hadmitted : h.admitted = { h with fields := h.fields.remove .expect } := if_pos hawaited
    simp only [CollectSettings.inspect, hawaited, hfilter, beq_self_eq_true, if_true, reduceCtorEq,
      if_false] at hhead hbody ⊢
    rw [← hadmitted] at hhead
    exact .gives hhead (.reply _) rfl hbody
  · have hadmitted : h.admitted = h := if_neg hawaited
    have hnot : (h.expectation == .awaitContinue) = false := by simpa using hawaited
    simp only [CollectSettings.inspect, hsupported, hnot, hfilter, if_false, Bool.false_eq_true]
      at hhead hbody ⊢
    rw [hadmitted] at hbody ⊢
    exact .quiet hhead hbody

/-- A whole message, from between messages. -/
theorem message (settings : CollectSettings) (parts : Parts k) :
    Settles (selectAll k) settings () .idle parts.messages
      (settings.verdicts parts.head parts.body parts.trailers) := by
  have hhead := @Collects.take_head k settings parts.head
  unfold CollectSettings.verdicts
  by_cases hunsupported : parts.head.expectation = .unsupported
  · have hinspect : settings.inspect parts.head =
        .ok (.refuse (.expectationFailed settings.closeOnRefusal), parts.head) := by
      simp [CollectSettings.inspect, hunsupported]
    rw [hinspect] at hhead
    simp only [hunsupported, if_true]
    cases hclose : settings.closeOnRefusal with
    | true =>
        rw [hclose] at hhead
        exact .ends hhead (.reply _) rfl
    | false =>
        rw [hclose] at hhead
        exact .gives hhead (.reply _) rfl (dropping _ _ _)
  · simp only [hunsupported, if_false]
    cases hfilter : parts.head.contentLength?.filter settings.exceeds with
    | some length => exact announced hunsupported hfilter _ _ _
    | none =>
        have hadmitted := @admitted k settings _ hunsupported hfilter parts.chunks parts.tail
          parts.trailers
        rw [CollectSettings.bodyVerdict_admitted] at hadmitted
        exact hadmitted

end Settles

/-! ## The head of a collected message -/

/-- A head that differs from another in nothing but the announced length and, if its body was
asked for, the expectation. -/
structure Head.IsCollectedAs (h h' : Head k) (length : Nat) : Prop where
  line : h'.line = h.line
  version : h'.version = h.version
  announced : h'.fields.values .contentLength = [.ofNat length]
  uncoded : h'.fields.contains .transferEncoding = false
  met : h.expectation = .awaitContinue → h'.fields.contains .expect = false
  others : ∀ name, name ≠ .contentLength → name ≠ .transferEncoding →
    (h.expectation = .awaitContinue → name ≠ .expect) →
      h'.fields.find? name = h.fields.find? name
  read : length < Numeral.wordBound → h'.contentLength? = some length

theorem Head.values_collected (h : Head k) (length : Nat) :
    (h.collected length).fields.values .contentLength = [.ofNat length] := by
  simp [collected, announce, Framing.announce, Fields.values]

theorem Head.isCollectedAs (h : Head k) (length : Nat) :
    h.IsCollectedAs (h.collected length) length where
  line := by
    unfold collected admitted
    split <;> rfl
  version := by
    unfold collected admitted
    split <;> rfl
  announced := h.values_collected length
  uncoded := by
    have hne : FieldName.transferEncoding ≠ .contentLength := by decide
    simp [collected, announce, Framing.announce, Fields.contains, Fields.find?_insert_of_ne, hne]
  met hawaited := by
    have hkept := (Framing.length length).announce_find?_of_ne (h.fields.remove .expect)
      (show FieldName.expect ≠ .contentLength by decide)
      (show FieldName.expect ≠ .transferEncoding by decide)
    simp [collected, admitted, hawaited, announce, Fields.contains, hkept]
  others name hlength hcoding hexpect := by
    have hkept := (Framing.length length).announce_find?_of_ne h.admitted.fields hlength hcoding
    refine hkept.trans ?_
    unfold admitted
    split
    · exact Fields.find?_remove_of_ne h.fields (hexpect ‹_›)
    · rfl
  read hword := contentLength?_of_digits (h.values_collected length)
    (Numeral.read?_write (by decide) (by decide) length) hword

/-! ## Sequences of messages -/

namespace Collector

variable (settings : CollectSettings)

/-- Behind any messages the collector stands between messages, unless one of them closed it. -/
theorem takeAll_phase (all : List (Parts k)) :
    ((⟨settings, (), .idle⟩ : Collector k Unit).takeAll (selectAll k)
        (all.flatMap Parts.messages)).2 =
      ⟨settings, (), if all.any settings.closesOn then .closed else .idle⟩ := by
  induction all with
  | nil => rfl
  | cons parts all ih =>
      rw [List.flatMap_cons, takeAll_append, (Settles.message settings parts).takeAll.2,
        List.any_cons, ← CollectSettings.closesOn]
      cases hcloses : settings.closesOn parts with
      | true => exact congrArg Prod.snd (takeAll_closed settings () _)
      | false => exact ih

/-- Any message of any sequence is answered by its verdicts, which depend on its head, its
body and its trailers, unless a message before it closed the collector: then each of its parts
has the same error. -/
theorem takeAll_messages (before : List (Parts k)) (parts : Parts k) :
    let reached := ((⟨settings, (), .idle⟩ : Collector k Unit).takeAll (selectAll k)
      (before.flatMap Parts.messages)).2
    let answers := (reached.takeAll (selectAll k) parts.messages).1
    let verdicts := settings.verdicts parts.head parts.body parts.trailers
    let collected := parts.head.collected parts.body.length
    (if before.any settings.closesOn then
        answers = List.replicate parts.messages.length (.error .channelClosed)
      else settings.Answered verdicts answers) ∧
    parts.head.IsCollectedAs collected parts.body.length ∧
    (parts.body.length = settings.maxLength → parts.head.expectation ≠ .unsupported →
      (∀ n, parts.head.contentLength? = some n → n ≤ settings.maxLength) →
        .message collected parts.body parts.trailers ∈ verdicts) := by
  intro reached answers verdicts collected
  refine ⟨?_, parts.head.isCollectedAs _, fun hlength hsupported hannounced => ?_⟩
  · have hreached : reached = _ := takeAll_phase settings before
    simp only [answers, hreached]
    cases before.any settings.closesOn with
    | true => exact congrArg Prod.fst (takeAll_closed settings () _)
    | false => exact (Settles.message settings parts).takeAll.1
  · have hfilter : parts.head.contentLength?.filter settings.exceeds = none := by
      refine Option.filter_eq_none_iff.mpr fun n hn => ?_
      simpa [CollectSettings.exceeds] using hannounced n hn
    have hfits : settings.exceeds parts.body.length = false := by
      simp [CollectSettings.exceeds, hlength]
    simp [verdicts, CollectSettings.verdicts, hsupported, hfilter, hfits, collected]

/-- A body beyond the limit, refused with its second piece, and behind it one of exactly the
limit. -/
theorem takeAll_messages_of_limit :
    let settings : CollectSettings := { maxLength := 4 }
    let upload (chunks : List Bytes) (tail : Bytes) : Parts .request :=
      { head := { line := ⟨.get, .root⟩ }, chunks, tail }
    let large := upload [ascii "abc", ascii "de"] (ascii "f")
    let fitting := upload [ascii "ab"] (ascii "cd")
    let reached := ((⟨settings, (), .idle⟩ : Collector .request Unit).takeAll (selectAll .request)
      ([large].flatMap Parts.messages)).2
    let collected := fitting.head.collected 4
    settings.verdicts large.head large.body large.trailers = [.reply (.tooLarge false)] ∧
      .message collected (ascii "abcd") ∅ ∈ settings.verdicts fitting.head (ascii "abcd") ∅ ∧
      settings.Answered [.message collected (ascii "abcd") ∅]
        (reached.takeAll (selectAll .request) fitting.messages).1 := by
  intro settings upload large fitting reached collected
  obtain ⟨hanswers, -, hfits⟩ := takeAll_messages settings [large] fitting
  have hopen : [large].any settings.closesOn = false := by decide +kernel
  have hnone : fitting.head.contentLength? = none := by decide +kernel
  have hmem := hfits rfl (by decide +kernel) (by simp [hnone])
  rw [hopen] at hanswers
  exact ⟨by decide +kernel, hmem, hanswers⟩

end Collector

end HttpFraming
