import HttpFraming.Collecting.Source
import HttpFraming.Endpoint.Server
import HttpFraming.Proofs.Arrival.Calls

/-!
# How much is held back

Whatever a peer sends, there is a bound to what is kept of it. A source that has nothing more to
hand out keeps no more bytes than a head or a trailer section may have, and a collector no more
data than it may collect: `Source.collected_holdsWithin`. Neither keeps anything once the bytes have
ended.
-/

namespace HttpFraming

/-! ## Bytes -/

/-- An answer in a source whose states are of a kind. If it is nothing, then no more than so many
bytes are left, and none if they have ended. Any other answer uses up some of the budget. -/
structure Pull.Bounded (pulled : Pull σ α) (source : Source σ α) (states : σ → Prop) (room : Nat)
    (ended : Bool) (budget : Nat) : Prop where
  kept : states pulled.state
  room : pulled.answer = .ok none → pulled.rest.length ≤ room
  ended : pulled.answer = .ok none → ended = true → pulled.rest = []
  progress : pulled.answer ≠ .ok none →
    2 * pulled.rest.length + source.weight pulled.state < budget

theorem Pull.Bounded.of_some {pulled : Pull σ α} {source : Source σ α} {states : σ → Prop}
    {room budget : Nat} {ended : Bool} (kept : states pulled.state)
    (hsome : pulled.answer ≠ .ok none)
    (progress : 2 * pulled.rest.length + source.weight pulled.state < budget) :
    pulled.Bounded source states room ended budget :=
  ⟨kept, fun hnone => absurd hnone hsome, fun hnone => absurd hnone hsome, fun _ => progress⟩

theorem Pull.Bounded.mono {pulled : Pull σ α} {source : Source σ α} {states : σ → Prop}
    {room budget budget' : Nat} {ended : Bool}
    (h : pulled.Bounded source states room ended budget) (hbudget : budget ≤ budget') :
    pulled.Bounded source states room ended budget' :=
  ⟨h.kept, h.room, h.ended, fun hsome => Nat.lt_of_lt_of_le (h.progress hsome) hbudget⟩

namespace Source

def Bounded (source : Source σ α) (states : σ → Prop) (room : Nat) : Prop :=
  ∀ ended state bytes, states state →
    (source.pull ended state bytes).Bounded source states room ended
      (2 * bytes.length + source.weight state)

namespace Bounded

variable {source : Source σ α} {states : σ → Prop} {room : Nat} {state : σ}

theorem calls (h : source.Bounded states room) (hstate : states state) (bytes : Bytes)
    (calls : List Call) : states (source.calls state bytes calls).state :=
  calls_induction source (motive := fun _ state _ => states state) hstate (fun _ _ _ _ h => h)
    (fun _ _ bytes ended hstate => (h ended _ bytes hstate).kept) calls

/-- Asking again and again comes to an end. -/
theorem exists_none (h : source.Bounded states room) (hstate : states state) (ended : Bool)
    (bytes : Bytes) :
    ∃ count, let called := source.calls state bytes (List.replicate count (.ask ended))
      (source.pull ended called.state called.rest).answer = .ok none := by
  induction hbudget : 2 * bytes.length + source.weight state using Nat.strongRecOn
    generalizing state bytes with
  | ind budget ih =>
      by_cases hnone : (source.pull ended state bytes).answer = .ok none
      · exact ⟨0, hnone⟩
      · have hbounded := h ended state bytes hstate
        obtain ⟨count, hcount⟩ := ih _ (hbudget ▸ hbounded.progress hnone) hbounded.kept _ rfl
        exact ⟨count + 1, hcount⟩

end Bounded

end Source

def Limits.room (limits : Limits) : Nat :=
  max limits.maxHeadBytes maxTrailerBytes

namespace Decoder

variable {k : Kind} {ρ : Type}

theorem source_bounded (ask : HeadRule k ρ) (limits : Limits) :
    (source ask).Bounded (fun state => state.1.limits = limits) limits.room := by
  rintro ended state bytes rfl
  rcases hdecode : state.1.decode ask ended state.2 bytes with ⟨message?, next, rule, rest⟩
  rw [pull_eq, hdecode]
  cases message? with
  | none =>
      have hwaits := waits_of_decode hdecode
      refine ⟨hwaits.limits, fun _ => hwaits.room, fun _ hended => ?_, absurd rfl⟩
      subst hended
      exact hwaits.nil_of_ended
  | some message =>
      have hlt := (source ask).pull_lt ended state bytes message (by rw [pull_eq, hdecode])
      rw [pull_eq, hdecode] at hlt
      refine .of_some ?_ (by simp) hlt
      cases hands_of_decode hdecode <;> rfl

end Decoder

namespace Server

theorem source_bounded (limits : Limits) :
    source.Bounded (fun server => server.upgraded = false ∧ server.decoder.limits = limits)
      limits.room := by
  rintro ended server bytes ⟨hupgraded, hlimits⟩
  obtain ⟨kept, room, hended, progress⟩ :=
    Decoder.source_bounded (statusRule .request) limits ended (server.decoder, ()) bytes hlimits
  have hpull : source.pull ended server bytes = pull ended server bytes := rfl
  simp only [hpull, pull, hupgraded, Bool.false_eq_true, if_false]
  refine ⟨⟨?_, ?_⟩, room, hended, fun hsome => ?_⟩
  · exact noteMessage_upgraded ..
  · rwa [noteMessage_decoder]
  · have hlt := progress hsome
    simp only [source, noteMessage_decoder]
    exact hlt

end Server

/-! ## Data -/

namespace Content

structure Fits (content : Content) (settings : CollectSettings) : Prop where
  length : content.length = content.chunks.flatten.length
  le : content.length ≤ settings.maxLength

theorem Fits.nil (settings : CollectSettings) : ({} : Content).Fits settings :=
  ⟨rfl, Nat.zero_le _⟩

theorem Fits.push {content : Content} {settings : CollectSettings} (h : content.Fits settings)
    {data : Bytes} (hroom : settings.exceeds (content.push data).length = false) :
    (content.push data).Fits settings := by
  refine ⟨?_, by simpa [CollectSettings.exceeds] using hroom⟩
  by_cases hdata : data = []
  · simp [Content.push, hdata, h.length]
  · simp [Content.push, hdata, h.length]

end Content

def CollectPhase.content : CollectPhase k → Content
  | collecting _ content _ => content
  | _ => {}

namespace Collector

variable {k : Kind} {ρ : Type}

/-- A collector with these settings holds no more than they allow. -/
structure Fits (collector : Collector k ρ) (settings : CollectSettings) : Prop where
  kept : collector.settings = settings
  content : collector.phase.content.Fits settings

namespace Fits

variable {collector : Collector k ρ} {settings : CollectSettings}

theorem of_empty (hkept : collector.settings = settings)
    (hempty : collector.phase.content = {}) : collector.Fits settings :=
  ⟨hkept, hempty ▸ .nil settings⟩

theorem takeHead (h : collector.Fits settings) (select : HeadRule k ρ) (head : Head k) :
    (collector.takeHead select head).2.Fits settings := by
  unfold Collector.takeHead
  split
  · dsimp only
    split
    · split
      · exact .of_empty h.kept rfl
      · exact .of_empty h.kept rfl
      · refine .of_empty h.kept ?_
        dsimp only [enter]
        split <;> rfl
      · exact .of_empty h.kept rfl
    · exact .of_empty h.kept rfl
  · exact .of_empty h.kept rfl

theorem overflow (h : collector.Fits settings) (head : Head k) (length : Nat)
    (awaited isLast : Bool) : (collector.overflow head length awaited isLast).2.Fits settings := by
  unfold Collector.overflow
  split
  · refine .of_empty h.kept ?_
    dsimp only [enter]
    split
    · rfl
    · split <;> rfl
  · exact .of_empty h.kept rfl

theorem takeItem (h : collector.Fits settings) (item : Item) :
    (collector.takeItem item).2.Fits settings := by
  unfold Collector.takeItem
  dsimp only
  split
  · exact h
  · split
    · exact .of_empty h.kept rfl
    · exact h
  · split
    · exact .of_empty h.kept rfl
    · exact h
  · exact h
  · rename_i head content awaited hphase
    split
    · exact h.overflow ..
    · rename_i hroom
      cases item with
      | chunk data =>
          have hcontent := h.content
          rw [hphase] at hcontent
          refine ⟨h.kept, hcontent.push ?_⟩
          rw [← h.kept]
          exact eq_false_of_ne_true hroom
      | last data trailers => exact .of_empty h.kept rfl

theorem takeFailure (h : collector.Fits settings) (select : HeadRule k ρ)
    (failure : Failure k) : (collector.takeFailure select failure).2.Fits settings := by
  have hbehind : (if failure.fatal then CollectPhase.closed else .idle : CollectPhase k).content =
      {} := by
    split <;> rfl
  unfold Collector.takeFailure
  dsimp only
  split
  · exact h
  · exact .of_empty h.kept hbehind
  · exact .of_empty h.kept hbehind
  · exact .of_empty h.kept hbehind
  · split
    · exact .of_empty h.kept hbehind
    · split <;> exact .of_empty h.kept hbehind

theorem take (h : collector.Fits settings) (select : HeadRule k ρ) (message : Message k) :
    (collector.take select message).2.Fits settings := by
  unfold Collector.take
  split
  · exact h
  · cases message with
    | header head => exact h.takeHead select head
    | payload item => exact h.takeItem item
    | failure failure => exact h.takeFailure select failure
    | raw data => exact h

end Fits

end Collector

/-! ## Both -/

namespace Source

variable {k : Kind} {ρ : Type} {source : Source σ (Message k)} {states : σ → Prop} {room : Nat}

/-- Behind a bounded source a collector makes a bounded source. -/
theorem Bounded.collected (h : source.Bounded states room) (select : HeadRule k ρ)
    (settings : CollectSettings) :
    (source.collected select).Bounded
      (fun state => states state.1 ∧ state.2.Fits settings) room := by
  rintro ended ⟨state, collector⟩ bytes ⟨hstate, hfits⟩
  show (source.collect select ended state collector bytes).Bounded _ _ _ _ _
  have hstopped : ∀ {collector : Collector k ρ}, collector.Fits settings →
      (if ended then collector.close else collector).Fits settings := by
    intro collector hfits
    split
    · exact .of_empty hfits.kept rfl
    · exact hfits
  fun_induction collect source select ended state collector bytes with
  | case1 state collector bytes stopped error next rest hpull =>
      have hbounded := h ended state bytes hstate
      rw [hpull] at hbounded
      exact .of_some ⟨hbounded.kept, hstopped hfits⟩ (by simp) (hbounded.progress (by simp))
  | case2 state collector bytes stopped next rest hpull =>
      have hbounded := h ended state bytes hstate
      rw [hpull] at hbounded
      exact ⟨⟨hbounded.kept, hstopped hfits⟩, fun _ => hbounded.room rfl,
        fun _ => hbounded.ended rfl, absurd rfl⟩
  | case3 state collector bytes message next rest hpull error collector' htake =>
      have hbounded := h ended state bytes hstate
      rw [hpull] at hbounded
      have htaken := hfits.take select message
      rw [htake] at htaken
      exact .of_some ⟨hbounded.kept, htaken⟩ (by simp) (hbounded.progress (by simp))
  | case4 state collector bytes message next rest hpull made collector' htake =>
      have hbounded := h ended state bytes hstate
      rw [hpull] at hbounded
      have htaken := hfits.take select message
      rw [htake] at htaken
      exact .of_some ⟨hbounded.kept, htaken⟩ (by simp) (hbounded.progress (by simp))
  | case5 state collector bytes message next rest hpull collector' htake ih =>
      have hbounded := h ended state bytes hstate
      rw [hpull] at hbounded
      have htaken := hfits.take select message
      rw [htake] at htaken
      exact (ih hbounded.kept htaken).mono (Nat.le_of_lt (hbounded.progress (by simp)))

theorem collect_closed (select : HeadRule k ρ) (state : σ) (collector : Collector k ρ)
    (bytes : Bytes) (hnone : (source.collect select true state collector bytes).answer = .ok none) :
    (source.collect select true state collector bytes).state.2.phase = .closed := by
  revert hnone
  fun_induction collect source select true state collector bytes with
  | case1 => simp
  | case2 => exact fun _ => rfl
  | case3 => simp
  | case4 => simp
  | case5 state collector bytes message next rest hpull collector' htake ih => exact ih

/-- From this state on, with nothing received yet and however it is fed and asked, a source with
a collector behind it holds bounded data and, where it waits, bounded bytes. It waits after enough
asks, and once it does so at the end of the bytes it holds nothing. -/
structure HoldsWithin (source : Source (σ × Collector k ρ) (Collected k)) (limits : Limits)
    (settings : CollectSettings) (state : σ × Collector k ρ) : Prop where
  data : ∀ calls, (source.calls state [] calls).state.2.phase.content.Fits settings
  bytes : ∀ calls ended, let called := source.calls state [] calls
    let pulled := source.pull ended called.state called.rest
    pulled.answer = .ok none → pulled.rest.length ≤ max limits.maxHeadBytes 8192
  nothing : ∀ calls, let called := source.calls state [] calls
    let pulled := source.pull true called.state called.rest
    pulled.answer = .ok none → pulled.rest = [] ∧ pulled.state.2.phase.content = {}
  waits : ∀ calls ended, ∃ count,
    let called := source.calls state [] (calls ++ List.replicate count (.ask ended))
    (source.pull ended called.state called.rest).answer = .ok none

theorem Bounded.holdsWithin {limits : Limits} (h : source.Bounded states limits.room)
    (select : HeadRule k ρ) (settings : CollectSettings) (rule : ρ) {state : σ}
    (hstate : states state) :
    (source.collected select).HoldsWithin limits settings (state, ⟨settings, rule, .idle⟩) := by
  have hcollected := h.collected select settings
  have hcalls : ∀ calls, let called :=
      (source.collected select).calls (state, ⟨settings, rule, .idle⟩) [] calls
      states called.state.1 ∧ called.state.2.Fits settings :=
    fun calls => hcollected.calls ⟨hstate, .of_empty rfl rfl⟩ [] calls
  refine ⟨fun calls => (hcalls calls).2.content, ?_, ?_, ?_⟩
  · intro calls ended called pulled
    exact (hcollected ended called.state called.rest (hcalls calls)).room
  · intro calls called pulled hnone
    refine ⟨(hcollected true called.state called.rest (hcalls calls)).ended hnone rfl, ?_⟩
    rw [show pulled.state.2.phase = .closed from collect_closed select _ _ _ hnone]
    rfl
  · intro calls ended
    obtain ⟨count, hcount⟩ := hcollected.exists_none (hcalls calls) ended _
    refine ⟨count, ?_⟩
    rw [calls_append]
    exact hcount

/-- Whoever the peer is: neither a decoder of requests nor a server that is not upgraded holds
more than its limits allow, with a collector behind it. -/
theorem collected_holdsWithin (limits : Limits) (settings : CollectSettings)
    (select : HeadRule .request ρ) (rule : ρ) (server : Server) :
    ((Decoder.source (statusRule .request)).collected select).HoldsWithin limits settings
        ((⟨limits, .head⟩, ()), ⟨settings, rule, .idle⟩) ∧
      (Server.source.collected select).HoldsWithin limits settings
        ({ server with decoder := ⟨limits, .head⟩, upgraded := false }, ⟨settings, rule, .idle⟩) :=
  ⟨(Decoder.source_bounded _ limits).holdsWithin select settings rule rfl,
    (Server.source_bounded limits).holdsWithin select settings rule ⟨rfl, rfl⟩⟩

end Source

end HttpFraming
