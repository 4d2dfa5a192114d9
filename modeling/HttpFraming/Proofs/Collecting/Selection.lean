import HttpFraming.Proofs.Collecting.Failures

/-!
# Messages that a rule declines

A rule is asked about a message once, at its head, and what it says holds until the message
ends, with its last piece or with a failure. The parts of a message that it declines pass as
they are. All others are answered as if the declined ones had never come, by a collector that
selects every message: `Collector.takeEach_sorted`.
-/

namespace HttpFraming

open Bytes

variable {k : Kind} {ρ : Type} {select : HeadRule k ρ}

/-! ## Messages and how they end -/

/-- A message ends with its last piece, or with a failure in place of whatever should follow. -/
inductive Ending (k : Kind)
  | last (data : Bytes) (trailers : Fields)
  | failure (head? : Option (Head k)) (cause : ReadError)
deriving DecidableEq

def Ending.message : Ending k → Message k
  | last data trailers => .payload (.last data trailers)
  | failure head? cause => .failure ⟨head?, cause, false⟩

/-- A message that came through, as far as it did: a failure may take the place of its head, of a
chunk or of its last piece. -/
inductive Course (k : Kind)
  | opened (head : Head k) (chunks : List Bytes) (ending : Ending k)
  | failed (head? : Option (Head k)) (cause : ReadError)
deriving DecidableEq

namespace Course

def behind (chunks : List Bytes) (ending : Ending k) : List (Message k) :=
  chunks.map (fun data => .payload (.chunk data)) ++ [ending.message]

def messages : Course k → List (Message k)
  | opened head chunks ending => .header head :: behind chunks ending
  | failed head? cause => [.failure ⟨head?, cause, false⟩]

def head? : Course k → Option (Head k)
  | opened head _ _ => some head
  | failed head? _ => head?

end Course

namespace HeadRule

/-- What a rule says about a message, and its state behind it. It is not asked about one without
a head, which is not declined. -/
def offer (select : HeadRule k ρ) (rule : ρ) (course : Course k) : Bool × ρ :=
  course.head?.elim (true, rule) (select · rule)

def sort (select : HeadRule k ρ) (rule : ρ) : List (Course k) → List (Course k × Bool)
  | [] => []
  | course :: more =>
      (course, (select.offer rule course).1) :: select.sort (select.offer rule course).2 more

def behind (select : HeadRule k ρ) (rule : ρ) (all : List (Course k)) : ρ :=
  all.foldl (fun rule course => (select.offer rule course).2) rule

theorem sort_map_fst (select : HeadRule k ρ) (rule : ρ) (all : List (Course k)) :
    (select.sort rule all).map Prod.fst = all := by
  induction all generalizing rule with
  | nil => rfl
  | cons course more ih => rw [sort, List.map_cons, ih]

theorem offer_recorded (select : HeadRule k ρ) (rule : ρ) (record : Record k) (course : Course k) :
    select.recorded.offer (rule, record) course =
      ((select.offer rule course).1, (select.offer rule course).2,
        record ++ (course.head?.map (·, (select.offer rule course).1)).toList) := by
  cases hhead : course.head? with
  | none => simp [offer, hhead]
  | some h => simp [offer, hhead, recorded]

/-- A record beside a rule changes nothing of what it says, and tells what it was asked. -/
theorem sort_recorded (select : HeadRule k ρ) (rule : ρ) (record : Record k)
    (all : List (Course k)) :
    select.recorded.sort (rule, record) all = select.sort rule all ∧
      (select.recorded.behind (rule, record) all).2 =
        record ++ (select.sort rule all).filterMap fun offered =>
          offered.1.head?.map (·, offered.2) := by
  induction all generalizing rule record with
  | nil => simp [sort, behind]
  | cons course more ih =>
      obtain ⟨hsort, hrecord⟩ := ih (select.offer rule course).2
        (record ++ (course.head?.map (·, (select.offer rule course).1)).toList)
      constructor
      · rw [sort, offer_recorded, hsort, sort]
      · rw [behind, List.foldl_cons, offer_recorded, ← behind, hrecord, sort, List.append_assoc,
          List.filterMap_cons]
        cases course.head? <;> rfl

end HeadRule

/-! ## One message -/

namespace Collector

def withRule (collector : Collector k ρ) (rule : τ) : Collector k τ :=
  ⟨collector.settings, rule, collector.phase⟩

/-- Within a message it makes no difference what the rule would say, and its state stays. -/
theorem take_of_busy (select : HeadRule k ρ) {collector : Collector k ρ}
    (hbusy : collector.phase ≠ .idle) (message : Message k) :
    collector.take select message = Prod.map id (withRule · collector.rule)
      ((collector.withRule ()).take (selectAll k) message) := by
  obtain ⟨settings, rule, phase⟩ := collector
  have hidle : (phase == .idle) = false := by simpa using hbusy
  by_cases hclosed : phase = .closed
  · subst hclosed
    rfl
  have hopen : (phase == .closed) = false := by simpa using hclosed
  cases message with
  | header h =>
      simp [take, isClosed, takeHead, isIdle, withRule, hidle, hopen, close, enter, Prod.map]
  | payload item =>
      simp only [take, isClosed, withRule, hopen, Bool.false_eq_true, if_false]
      cases phase with
      | idle => exact absurd rfl hbusy
      | closed => rfl
      | passing => cases item <;> rfl
      | dropping => cases item <;> rfl
      | collecting h content awaited =>
          simp only [takeItem]
          split
          · unfold overflow
            split <;> rfl
          · cases item <;> rfl
  | failure failure =>
      cases phase with
      | idle => exact absurd rfl hbusy
      | _ => rfl
  | raw data => simp [take, isClosed, withRule, hopen]

theorem take_chunk_busy (select : HeadRule k ρ) {collector : Collector k ρ}
    (hbusy : collector.phase ≠ .idle) (data : Bytes) :
    (collector.take select (.payload (.chunk data))).2.phase ≠ .idle := by
  obtain ⟨settings, rule, phase⟩ := collector
  cases phase with
  | idle => exact absurd rfl hbusy
  | passing => rintro ⟨⟩
  | dropping => rintro ⟨⟩
  | closed => rintro ⟨⟩
  | collecting h content awaited =>
      rw [take, if_neg (by rintro ⟨⟩)]
      dsimp only [takeItem]
      split
      · intro hidle
        rcases overflow_phase ⟨settings, rule, .collecting h content awaited⟩ h
          (content.push data).length awaited false with hphase | hphase
        · cases hphase.symm.trans hidle
        · cases hphase.symm.trans hidle
      · rintro ⟨⟩

theorem take_header_busy (select : HeadRule k ρ) (collector : Collector k ρ) (h : Head k) :
    (collector.take select (.header h)).2.phase ≠ .idle := by
  by_cases hclosed : collector.isClosed = true
  · have hphase : collector.phase = .closed := by simpa [isClosed] using hclosed
    rw [take, if_pos hclosed, hphase]
    rintro ⟨⟩
  · rw [take, if_neg hclosed]
    simp only [takeHead, close, enter]
    repeat' split
    all_goals rintro ⟨⟩

/-- Behind the end of a message a collector stands between messages, unless it is closed. -/
theorem take_ending (collector : Collector k ρ) (ending : Ending k) :
    (collector.take select ending.message).2.phase = .idle ∨
      (collector.take select ending.message).2.phase = .closed := by
  obtain ⟨settings, rule, phase⟩ := collector
  by_cases hclosed : phase = .closed
  · subst hclosed
    exact .inr rfl
  have hopen : (⟨settings, rule, phase⟩ : Collector k ρ).isClosed = false := by
    simpa [isClosed] using hclosed
  rw [take.eq_def, if_neg (by simp [hopen])]
  cases ending with
  | last data trailers =>
      cases phase with
      | idle => exact .inl rfl
      | passing => exact .inl rfl
      | dropping => exact .inl rfl
      | closed => exact .inr rfl
      | collecting h content awaited =>
          dsimp only [Ending.message, takeItem]
          split
          · exact (overflow_phase ⟨settings, rule, .collecting h content awaited⟩ h
              (content.push data).length awaited true).symm
          · exact .inl rfl
  | failure head? cause =>
      obtain ⟨out, htake, -⟩ := takeFailure_answer hopen select ⟨head?, cause, false⟩
      exact .inl (congrArg (·.2.phase) htake)

theorem takeAll_behind (select : HeadRule k ρ) {collector : Collector k ρ}
    (hbusy : collector.phase ≠ .idle) (chunks : List Bytes) (ending : Ending k) :
    collector.takeAll select (Course.behind chunks ending) = Prod.map id (withRule · collector.rule)
      ((collector.withRule ()).takeAll (selectAll k) (Course.behind chunks ending)) := by
  induction chunks generalizing collector with
  | nil =>
      have htake := take_of_busy select hbusy ending.message
      rw [Course.behind, List.map_nil, List.nil_append, takeAll_cons htake]
      rfl
  | cons data chunks ih =>
      have htake := take_of_busy select hbusy (.payload (.chunk data))
      have hnext := take_chunk_busy select hbusy data
      rw [Course.behind, List.map_cons, List.cons_append, ← Course.behind]
      rcases hcommon : (collector.withRule ()).take (selectAll k) (.payload (.chunk data)) with
        ⟨answer, next⟩
      replace htake : collector.take select (.payload (.chunk data)) =
          (answer, next.withRule collector.rule) := htake.trans (by rw [hcommon]; rfl)
      rw [htake] at hnext
      rw [takeAll_cons htake, takeAll_cons hcommon, ih hnext]
      rfl

section Courses

variable (settings : CollectSettings) (rule : ρ) (course : Course k)

/-- A message that is not declined is taken as by the collector that selects every message. -/
theorem takeAll_selected (hselected : (select.offer rule course).1 = true) :
    (⟨settings, rule, .idle⟩ : Collector k ρ).takeAll select course.messages =
      Prod.map id (withRule · (select.offer rule course).2)
        ((⟨settings, (), .idle⟩ : Collector k Unit).takeAll (selectAll k) course.messages) := by
  cases course with
  | opened h chunks ending =>
      have hhead : (⟨settings, rule, .idle⟩ : Collector k ρ).take select (.header h) =
          Prod.map id (withRule · (select h rule).2)
            ((⟨settings, (), .idle⟩ : Collector k Unit).take (selectAll k) (.header h)) := by
        have hselect : (select h rule).1 = true := hselected
        rcases hinspect : settings.inspect h with error | ⟨_ | _ | _, h'⟩ <;>
          simp [take, isClosed, takeHead, isIdle, selectAll, hselect, hinspect, enter, close,
            withRule]
      have hbusy := take_header_busy (selectAll k) ⟨settings, (), .idle⟩ h
      rcases hcommon : (⟨settings, (), .idle⟩ : Collector k Unit).take (selectAll k) (.header h)
        with ⟨answer, next⟩
      rw [hcommon] at hhead hbusy
      have hrest := takeAll_behind select (show (next.withRule (select h rule).2).phase ≠ .idle from
        hbusy) chunks ending
      replace hhead : (⟨settings, rule, .idle⟩ : Collector k ρ).take select (.header h) =
          (answer, next.withRule (select h rule).2) := hhead
      rw [Course.messages, takeAll_cons hhead, takeAll_cons hcommon, hrest]
      rfl
  | failed head? cause =>
      cases head? with
      | none => rfl
      | some h =>
          have hselect : (select h rule).1 = true := hselected
          simp [Course.messages, takeAll, take, isClosed, takeFailure, selectAll, hselect, enter,
            withRule, HeadRule.offer, Course.head?]

def forwards (messages : List (Message k)) : List (Except CollectError (Option (Collected k))) :=
  messages.map fun message => .ok (some (.forward message))

/-- The parts behind a head that was declined. -/
theorem takeAll_passing (chunks : List Bytes) (ending : Ending k) :
    (⟨settings, rule, .passing⟩ : Collector k ρ).takeAll select (Course.behind chunks ending) =
      (forwards (Course.behind chunks ending), ⟨settings, rule, .idle⟩) := by
  induction chunks with
  | nil => cases ending <;> rfl
  | cons data chunks ih =>
      have htake : (⟨settings, rule, .passing⟩ : Collector k ρ).take select
          (.payload (.chunk data)) =
            (.ok (some (.forward (.payload (.chunk data)))), ⟨settings, rule, .passing⟩) := rfl
      rw [Course.behind, List.map_cons, List.cons_append, ← Course.behind, takeAll_cons htake, ih]
      rfl

/-- A message that is declined passes as it came, whatever its size and its expectation. -/
theorem takeAll_declined (hdeclined : (select.offer rule course).1 = false) :
    (⟨settings, rule, .idle⟩ : Collector k ρ).takeAll select course.messages =
      (forwards course.messages, ⟨settings, (select.offer rule course).2, .idle⟩) := by
  cases course with
  | opened h chunks ending =>
      have hselect : (select h rule).1 = false := hdeclined
      have hhead : (⟨settings, rule, .idle⟩ : Collector k ρ).take select (.header h) =
          (.ok (some (.forward (.header h))), ⟨settings, (select h rule).2, .passing⟩) := by
        simp [take, isClosed, takeHead, isIdle, hselect, enter]
      rw [Course.messages, takeAll_cons hhead, takeAll_passing]
      rfl
  | failed head? cause =>
      cases head? with
      | none => cases hdeclined
      | some h =>
          have hselect : (select h rule).1 = false := hdeclined
          simp [Course.messages, takeAll, take, isClosed, takeFailure, hselect, enter, forwards,
            HeadRule.offer, Course.head?]

theorem takeAll_course_phase (select : HeadRule k ρ) :
    ((⟨settings, rule, .idle⟩ : Collector k ρ).takeAll select course.messages).2.phase = .idle ∨
      ((⟨settings, rule, .idle⟩ : Collector k ρ).takeAll select course.messages).2.phase =
        .closed := by
  have hending : ∀ (collector : Collector k ρ) (before : List (Message k)) (ending : Ending k),
      (collector.takeAll select (before ++ [ending.message])).2.phase = .idle ∨
        (collector.takeAll select (before ++ [ending.message])).2.phase = .closed := by
    intro collector before ending
    rw [takeAll_append]
    exact take_ending _ ending
  cases course with
  | opened h chunks ending =>
      exact hending _ (.header h :: chunks.map fun data => .payload (.chunk data)) ending
  | failed head? cause => exact hending _ [] (.failure head? cause)

end Courses

/-! ## Sequences of messages -/

def takeEach (collector : Collector k ρ) (select : HeadRule k ρ) :
    List (List (Message k)) →
      List (List (Except CollectError (Option (Collected k)))) × Collector k ρ
  | [] => ([], collector)
  | messages :: more =>
      let (answers, next) := collector.takeAll select messages
      let (later, last) := next.takeEach select more
      (answers :: later, last)

theorem takeEach_cons {collector next : Collector k ρ} {messages : List (Message k)}
    {answers : List (Except CollectError (Option (Collected k)))}
    (h : collector.takeAll select messages = (answers, next)) (more : List (List (Message k))) :
    collector.takeEach select (messages :: more) =
      (answers :: (next.takeEach select more).1, (next.takeEach select more).2) := by
  simp only [takeEach, h]

theorem takeEach_flatten (select : HeadRule k ρ) (collector : Collector k ρ)
    (all : List (List (Message k))) :
    collector.takeAll select all.flatten =
      ((collector.takeEach select all).1.flatten, (collector.takeEach select all).2) := by
  induction all generalizing collector with
  | nil => rfl
  | cons messages more ih =>
      rw [List.flatten_cons, takeAll_append, ih]
      rfl

theorem takeEach_open {settings : CollectSettings} {rule : ρ} {phase : CollectPhase k}
    {all : List (List (Message k))}
    (hopen : ((⟨settings, rule, phase⟩ : Collector k ρ).takeEach select all).2.isClosed = false) :
    phase ≠ .closed := by
  rintro rfl
  have hflat := takeEach_flatten select ⟨settings, rule, .closed⟩ all
  rw [takeAll_closed] at hflat
  rw [← (Prod.mk.inj hflat).2] at hopen
  cases hopen

/-- A rule sorts the messages. The declined ones pass, and the others are taken as if there were
no others. -/
theorem takeEach_courses (settings : CollectSettings) (select : HeadRule k ρ) (rule : ρ)
    (all : List (Course k)) :
    let run := (⟨settings, rule, .idle⟩ : Collector k ρ).takeEach select (all.map Course.messages)
    let sorted := select.sort rule all
    run.2.isClosed = false →
      run.2.rule = select.behind rule all ∧
      List.Forall₂ (fun offered answers =>
        offered.2 = false → answers = forwards offered.1.messages) sorted run.1 ∧
      ((sorted.zip run.1).filter (·.1.2)).map (·.2) =
        ((⟨settings, (), .idle⟩ : Collector k Unit).takeEach (selectAll k)
          ((sorted.filter (·.2)).map (·.1.messages))).1 := by
  induction all generalizing rule with
  | nil => exact fun _ => ⟨rfl, .nil, rfl⟩
  | cons course more ih =>
      intro run sorted hopen
      have hsorted : sorted = (course, (select.offer rule course).1) ::
        select.sort (select.offer rule course).2 more := rfl
      cases hoffer : (select.offer rule course).1 with
      | false =>
          have hrun : run = _ := takeEach_cons (takeAll_declined settings rule course hoffer) _
          rw [hrun] at hopen
          obtain ⟨hrule, hdeclined, hothers⟩ := ih (select.offer rule course).2 hopen
          rw [hsorted, hrun, hoffer]
          exact ⟨hrule, .cons (fun _ => rfl) hdeclined, hothers⟩
      | true =>
          have hcourse := takeAll_selected settings rule course hoffer
          have hphase := takeAll_course_phase settings () course (selectAll k)
          have hsettings := takeAll_settings (selectAll k) ⟨settings, (), .idle⟩
            course.messages
          rcases hcommon : (⟨settings, (), .idle⟩ : Collector k Unit).takeAll (selectAll k)
            course.messages with ⟨answers, ⟨settings', ⟨⟩, phase⟩⟩
          rw [hcommon] at hcourse hphase hsettings
          obtain rfl : settings' = settings := hsettings
          replace hcourse : (⟨settings', rule, .idle⟩ : Collector k ρ).takeAll select
            course.messages = (answers, ⟨settings', (select.offer rule course).2, phase⟩) := hcourse
          have hrun : run = _ := takeEach_cons hcourse _
          rw [hrun] at hopen
          obtain rfl : phase = .idle := hphase.resolve_right (takeEach_open hopen)
          obtain ⟨hrule, hdeclined, hothers⟩ := ih (select.offer rule course).2 hopen
          rw [hsorted, hrun, hoffer]
          refine ⟨hrule, .cons (by simp) hdeclined, ?_⟩
          rw [List.filter_cons_of_pos rfl, List.map_cons, takeEach_cons hcommon, ← hothers]
          rfl

/-- A record beside a rule changes nothing of what is handed out. -/
theorem take_recorded (select : HeadRule k ρ) (collector : Collector k ρ) (record : Record k)
    (message : Message k) :
    ∃ record', (collector.withRule (collector.rule, record)).take select.recorded message =
      Prod.map id (fun next => next.withRule (next.rule, record'))
        (collector.take select message) := by
  by_cases hidle : collector.phase = .idle
  · obtain ⟨settings, rule, phase⟩ := collector
    obtain rfl : phase = .idle := hidle
    cases message with
    | header h =>
        refine ⟨record ++ [(h, (select h rule).1)], ?_⟩
        cases hselect : (select h rule).1 with
        | false =>
            simp [take, isClosed, takeHead, isIdle, withRule, enter, HeadRule.recorded, hselect]
        | true =>
            rcases hinspect : settings.inspect h with error | ⟨_ | _ | _, h'⟩ <;>
              simp [take, isClosed, takeHead, isIdle, withRule, enter, close, HeadRule.recorded,
                hselect, hinspect]
    | payload item => exact ⟨record, rfl⟩
    | failure failure =>
        cases hhead : failure.head? with
        | none =>
            exact ⟨record, by simp [take, isClosed, takeFailure, withRule, enter, hhead]⟩
        | some h =>
            refine ⟨record ++ [(h, (select h rule).1)], ?_⟩
            cases hselect : (select h rule).1 <;>
              simp [take, isClosed, takeFailure, withRule, enter, HeadRule.recorded, hhead, hselect]
    | raw data => exact ⟨record, rfl⟩
  · refine ⟨record, ?_⟩
    have hbusy : (collector.withRule (collector.rule, record)).phase ≠ .idle := hidle
    rw [take_of_busy select.recorded hbusy, take_of_busy select hidle]
    rfl

theorem takeAll_recorded (select : HeadRule k ρ) (collector : Collector k ρ) (record : Record k)
    (messages : List (Message k)) :
    ∃ record', (collector.withRule (collector.rule, record)).takeAll select.recorded messages =
      Prod.map id (fun next => next.withRule (next.rule, record'))
        (collector.takeAll select messages) := by
  induction messages generalizing collector record with
  | nil => exact ⟨record, rfl⟩
  | cons message more ih =>
      obtain ⟨asked, htake⟩ := take_recorded select collector record message
      rcases hstep : collector.take select message with ⟨answer, next⟩
      rw [hstep] at htake
      obtain ⟨later, hmore⟩ := ih next asked
      refine ⟨later, ?_⟩
      replace htake : (collector.withRule (collector.rule, record)).take select.recorded message =
        (answer, next.withRule (next.rule, asked)) := htake
      rw [takeAll_cons hstep, takeAll_cons htake, hmore]
      rfl

/-- A rule is asked once about each message that has a head, about that head as it came, in order
and about nothing else. The parts of a message that it declines pass as they came, one by one. All
other messages are answered as if they were alone, by a collector that selects every message. -/
theorem takeEach_sorted (settings : CollectSettings) (select : HeadRule k ρ) (rule : ρ)
    (all : List (Course k))
    (hopen : ((⟨settings, rule, .idle⟩ : Collector k ρ).takeAll select
      (all.flatMap Course.messages)).2.isClosed = false) :
    let plain := (⟨settings, rule, .idle⟩ : Collector k ρ).takeAll select
      (all.flatMap Course.messages)
    let run := (⟨settings, (rule, []), .idle⟩ : Collector k (ρ × Record k)).takeEach
      select.recorded (all.map Course.messages)
    let sorted := select.sort rule all
    run.1.flatten = plain.1 ∧
      run.2.rule.2.map Prod.fst = all.filterMap Course.head? ∧
      run.2.rule.2 = sorted.filterMap (fun offered => offered.1.head?.map (·, offered.2)) ∧
      List.Forall₂ (fun offered answers =>
        offered.2 = false → answers = forwards offered.1.messages) sorted run.1 ∧
      ((sorted.zip run.1).filter (·.1.2)).map (·.2) =
        ((⟨settings, (), .idle⟩ : Collector k Unit).takeEach (selectAll k)
          ((sorted.filter (·.2)).map (·.1.messages))).1 := by
  intro plain run sorted
  obtain ⟨record, hplain⟩ := takeAll_recorded select ⟨settings, rule, .idle⟩ []
    (all.flatMap Course.messages)
  have hflat := takeEach_flatten select.recorded ⟨settings, (rule, []), .idle⟩
    (all.map Course.messages)
  rw [← List.flatMap_def] at hflat
  obtain ⟨hanswers, hlast⟩ := Prod.mk.inj (hflat.symm.trans hplain)
  have hrun : run.2.isClosed = false := (congrArg isClosed hlast).trans hopen
  obtain ⟨hsort, hrecord⟩ := select.sort_recorded rule [] all
  obtain ⟨hrule, hdeclined, hothers⟩ :=
    takeEach_courses settings select.recorded (rule, []) all hrun
  rw [hsort] at hdeclined hothers
  have hasked : run.2.rule.2 = sorted.filterMap fun offered =>
      offered.1.head?.map (·, offered.2) := (congrArg Prod.snd hrule).trans hrecord
  refine ⟨hanswers, ?_, hasked, hdeclined, hothers⟩
  have hheads : (fun offered : Course k × Bool =>
      (offered.1.head?.map (·, offered.2)).map Prod.fst) = Course.head? ∘ Prod.fst := by
    funext offered
    cases hhead : offered.1.head? <;> simp [hhead]
  rw [hasked, List.map_filterMap, hheads, ← List.filterMap_map, select.sort_map_fst]

/-- A rule that declines every other message, the first for a start. What it declines are a body
beyond the limit that waits to be asked for, and a head that failed. -/
theorem takeEach_sorted_of_alternation :
    let settings : CollectSettings := { maxLength := 4 }
    let select : HeadRule .request Bool := fun _ selects => (selects, !selects)
    let upload : Request := { line := ⟨⟨ascii "PUT", by decide⟩, .root⟩ }
    let waiting : Request :=
      { upload with fields := (∅ : Fields).insert .expect ⟨ascii "100-continue", by decide⟩ }
    let large : Course .request := .opened waiting [ascii "hello"] (.last [] ∅)
    let cut : Course .request := .opened upload [ascii "abc"] (.failure none .prematureEnd)
    let unread : Course .request := .failed (some upload) .prematureEnd
    let small : Course .request := .opened waiting [ascii "ab"] (.last (ascii "cd") ∅)
    let all := [large, cut, unread, small]
    let plain := (⟨settings, false, .idle⟩ : Collector .request Bool).takeAll select
      (all.flatMap Course.messages)
    let run := (⟨settings, (false, []), .idle⟩ : Collector .request (Bool × Record .request)).takeEach
      select.recorded (all.map Course.messages)
    let sorted := [(large, false), (cut, true), (unread, false), (small, true)]
    plain.2.isClosed = false ∧
      run.2.rule.2 = [(waiting, false), (upload, true), (upload, false), (waiting, true)] ∧
      List.Forall₂ (fun offered answers =>
        offered.2 = false → answers = forwards offered.1.messages) sorted run.1 ∧
      ((sorted.zip run.1).filter (·.1.2)).map (·.2) =
        ((⟨settings, (), .idle⟩ : Collector .request Unit).takeEach (selectAll .request)
          [cut.messages, small.messages]).1 := by
  intro settings select upload waiting large cut unread small all plain run sorted
  have hopen : plain.2.isClosed = false := by decide +kernel
  obtain ⟨-, -, hasked, hdeclined, hothers⟩ := takeEach_sorted settings select false all hopen
  exact ⟨hopen, hasked, hdeclined, hothers⟩

end Collector

end HttpFraming
