import Aquarium.Device.Outputs
import Aquarium.Proofs.Slots
import Mathlib.Logic.Basic

/-!
# An update of scheduled outputs

What the outputs hand to their sink is the only thing the world sees of them. A `Recorder` is a sink
that writes down what it is handed and what the sink behind it made of it.

* `valueAt`, `values_eq`: at a valid time of the week an evaluation of all channels cannot fail;
* `OutputSink.handOver`: what a sink makes of values that it is handed one after another;
* `update_eq_handOver`: an update hands over the values there are, once each and in the order of the
  channels, and then is the state before with the accepted ones noted in it;
* `update_eq`, `exists_update_eq`: the same by what was offered, with a recorder and without;
* `update_forget`: a recorder changes nothing but its record.
-/

namespace Aquarium

/-! ## 1. Evaluating all channels -/

namespace Tracker

variable {V : Type} {C P N : Nat}

/-- The value of a channel, at a time of the week that is no fault. -/
def valueAt [ChannelValue V] (t : Tracker N) (s : WeekSchedule V C P) (channel : Nat)
    (now : WeekTime) : Option V :=
  if N ≤ channel then none
  else
    (s.current? channel now .allDays).bind fun current =>
      ChannelView.value
        ⟨current, s.next? channel now .allDays, t.times.get? channel, now.position⟩ t.mode

theorem value_eq [ChannelValue V] (t : Tracker N) (s : WeekSchedule V C P) (channel : Nat)
    {now : WeekTime} (hv : now.Valid) :
    t.value s channel now = .ok (t.valueAt s channel now) := by
  unfold value view? valueAt
  by_cases hc : N ≤ channel
  · rw [if_pos hc, if_pos hc]
    rfl
  · rw [if_neg hc, if_neg hc]
    cases s.current? channel now .allDays with
    | none => rfl
    | some current =>
      simp only [WeekTime.timeOfWeek_eq hv]
      rfl

theorem values_eq [ChannelValue V] (t : Tracker N) (s : WeekSchedule V C P) {now : WeekTime}
    (hv : now.Valid) :
    t.values s now = .ok ((List.range N).map fun channel => t.valueAt s channel now) := by
  unfold values
  simp only [value_eq t s _ hv]
  exact List.mapM_pure

theorem stamp_eq (t : Tracker N) {channel : Nat} (hc : channel < N) {now : WeekTime}
    (hv : now.Valid) :
    t.stamp channel now =
      .ok (true, { t with times := t.times.set channel (some now.position) }) := by
  unfold stamp
  rw [if_pos hc, WeekTime.timeOfWeek_eq hv]
  rfl

end Tracker

/-! ## 2. What is offered, and what became of it -/

/-- A value that a sink was handed, and whether it took it. -/
structure Offer where
  channel : Nat
  value : Float32
  taken : Bool
  deriving DecidableEq

/-- A sink that writes down what it is handed. -/
structure Recorder (σ : Type) where
  sink : σ
  offers : List Offer

namespace Recorder

variable {σ : Type} [OutputSink σ]

def apply (r : Recorder σ) (channel : Nat) (value : Float32) :
    Recorder σ × Option DriverError :=
  let answer := OutputSink.apply r.sink channel value
  (⟨answer.1, r.offers ++ [⟨channel, value, answer.2.isNone⟩]⟩, answer.2)

instance : OutputSink (Recorder σ) := ⟨apply⟩

end Recorder

/-- What a sink makes of values that it is handed one after another: the sink afterwards, and each
value with whether it was taken. -/
def OutputSink.handOver {σ : Type} [OutputSink σ] : σ → List (Nat × Float32) → σ × List Offer
  | sink, [] => (sink, [])
  | sink, (channel, value) :: asked =>
    let answer := OutputSink.apply sink channel value
    let rest := handOver answer.1 asked
    (rest.1, ⟨channel, value, answer.2.isNone⟩ :: rest.2)

namespace ScheduledOutputs

variable {σ : Type}

/-- The outputs on another sink. -/
def withSink {τ : Type} (o : ScheduledOutputs σ) (sink : τ) : ScheduledOutputs τ :=
  ⟨o.schedule, o.tracker, sink, o.names, o.applied, o.dirty⟩

@[simp] theorem tracker_withSink {τ : Type} (o : ScheduledOutputs σ) (sink : τ) :
    (o.withSink sink).tracker = o.tracker := rfl

/-- The outputs with what became of an offer noted in them. -/
def note (now : WeekTime) (o : ScheduledOutputs σ) (f : Offer) : ScheduledOutputs σ :=
  if f.taken then
    { o with
      tracker := { o.tracker with times := o.tracker.times.set f.channel (some now.position) }
      applied := o.applied.set f.channel (some f.value)
      dirty := true }
  else o

/-- The values there are, with their channels counted from the first one. -/
def offered : Nat → List (Option Float32) → List (Nat × Float32)
  | _, [] => []
  | channel, none :: values => offered (channel + 1) values
  | channel, some value :: values => (channel, value) :: offered (channel + 1) values

theorem mem_offered_cons {channel c : Nat} {value : Option Float32} {values : List (Option Float32)}
    {v : Float32} :
    (c, v) ∈ offered channel (value :: values) ↔
      (c = channel ∧ value = some v) ∨ (c, v) ∈ offered (channel + 1) values := by
  cases value with
  | none => simp [offered]
  | some w => simp [offered, eq_comm]

theorem mem_offered_iff {channel c : Nat} {values : List (Option Float32)} {v : Float32} :
    (c, v) ∈ offered channel values ↔ channel ≤ c ∧ values[c - channel]? = some (some v) := by
  induction values generalizing channel with
  | nil => simp [offered]
  | cons value values ih =>
    rw [mem_offered_cons, ih]
    rcases Nat.lt_trichotomy c channel with hlt | heq | hgt
    · omega
    · subst heq
      rw [Nat.sub_self]
      constructor
      · rintro (⟨-, rfl⟩ | ⟨habove, -⟩)
        · exact ⟨Nat.le_refl c, rfl⟩
        · exact absurd habove (Nat.not_succ_le_self c)
      · rintro ⟨-, hvalue⟩
        exact .inl ⟨rfl, Option.some.inj hvalue⟩
    · obtain ⟨k, rfl⟩ : ∃ k, c = channel + 1 + k := ⟨c - channel - 1, by omega⟩
      have hk : channel + 1 + k - channel = k + 1 := by omega
      have hne : channel + 1 + k ≠ channel := by omega
      have hle : channel ≤ channel + 1 + k := by omega
      simp [hne, hk, hle]

/-- What is to be handed over now: of every channel the value that the tracker has for it. -/
def due (now : WeekTime) (o : ScheduledOutputs σ) : List (Nat × Float32) :=
  offered 0 ((List.range outputChannels).map fun c => o.tracker.valueAt o.schedule c now)

theorem mem_due_iff {now : WeekTime} {o : ScheduledOutputs σ} {channel : Nat} {value : Float32} :
    (channel, value) ∈ due now o ↔ o.tracker.valueAt o.schedule channel now = some value := by
  rw [due, mem_offered_iff, Nat.sub_zero, List.getElem?_map]
  by_cases hc : channel < outputChannels
  · simp [List.getElem?_range hc]
  · have hnone : o.tracker.valueAt o.schedule channel now = none := if_pos (Nat.not_lt.mp hc)
    have hout : (List.range outputChannels)[channel]? = none :=
      List.getElem?_eq_none (by simpa using hc)
    simp [hout, hnone]

theorem lt_of_mem_due {now : WeekTime} {o : ScheduledOutputs σ} {channel : Nat} {value : Float32}
    (h : (channel, value) ∈ due now o) : channel < outputChannels := by
  have hvalue := mem_due_iff.mp h
  refine Classical.byContradiction fun hge => ?_
  rw [Tracker.valueAt, if_pos (Nat.not_lt.mp hge)] at hvalue
  cases hvalue

section Noting

variable {now : WeekTime} {offers : List Offer} {o : ScheduledOutputs σ}

theorem note_withSink {τ : Type} (sink : τ) (f : Offer) :
    note now (o.withSink sink) f = (note now o f).withSink sink := by
  unfold note
  split <;> rfl

theorem foldl_note_withSink {τ : Type} (sink : τ) :
    offers.foldl (note now) (o.withSink sink) = (offers.foldl (note now) o).withSink sink := by
  induction offers generalizing o with
  | nil => rfl
  | cons f offers ih => rw [List.foldl_cons, List.foldl_cons, note_withSink, ih]

theorem note_frame (now : WeekTime) (o : ScheduledOutputs σ) (f : Offer) :
    (note now o f).schedule = o.schedule ∧ (note now o f).mode = o.mode := by
  unfold note
  split <;> exact ⟨rfl, rfl⟩

theorem foldl_note_frame :
    (offers.foldl (note now) o).schedule = o.schedule ∧
      (offers.foldl (note now) o).mode = o.mode := by
  induction offers generalizing o with
  | nil => exact ⟨rfl, rfl⟩
  | cons f offers ih =>
    have hf := note_frame now o f
    rw [List.foldl_cons, (ih (o := note now o f)).1, (ih (o := note now o f)).2]
    exact hf

theorem times_note {f : Offer} (hf : f.channel < outputChannels) (channel : Nat) :
    (note now o f).tracker.times.get? channel =
      if f.channel = channel ∧ f.taken then some now.position
      else o.tracker.times.get? channel := by
  unfold note
  by_cases ht : f.taken
  · rw [if_pos ht]
    simp only [ht, and_true]
    rw [Slots.get?_set _ _ _ _ hf]
    simp only [eq_comm]
  · rw [if_neg ht, if_neg fun h => ht h.2]

/-- The time of a channel that took an offer is now; that of another is what it was. -/
theorem times_foldl_note (hoffers : ∀ f ∈ offers, f.channel < outputChannels) (channel : Nat) :
    (offers.foldl (note now) o).tracker.times.get? channel =
      if ∃ f ∈ offers, f.channel = channel ∧ f.taken then some now.position
      else o.tracker.times.get? channel := by
  induction offers generalizing o with
  | nil => simp
  | cons f offers ih =>
    rw [List.foldl_cons, ih fun g hg => hoffers g (List.mem_cons_of_mem f hg),
      times_note (hoffers f List.mem_cons_self)]
    by_cases hlater : ∃ f ∈ offers, f.channel = channel ∧ f.taken
    · rw [if_pos hlater, if_pos]
      obtain ⟨g, hg, hgc⟩ := hlater
      exact ⟨g, List.mem_cons_of_mem f hg, hgc⟩
    · rw [if_neg hlater]
      simp only [List.mem_cons, exists_eq_or_imp, or_iff_left hlater]

theorem dirty_foldl_note :
    (offers.foldl (note now) o).dirty = (o.dirty || offers.any (·.taken)) := by
  induction offers generalizing o with
  | nil => simp
  | cons f offers ih =>
    have hf : (note now o f).dirty = (o.dirty || f.taken) := by
      unfold note
      cases f.taken <;> simp
    rw [List.foldl_cons, ih, hf, List.any_cons, Bool.or_assoc]

end Noting

/-! ## 3. What an update does -/

section Updating

variable [OutputSink σ]

theorem offer_eq (o : ScheduledOutputs σ) {now : WeekTime} (hv : now.Valid) {channel : Nat}
    (hc : channel < outputChannels) (value : Float32) :
    o.offer now channel value =
      .ok ((note now o
          ⟨channel, value, (OutputSink.apply o.sink channel value).2.isNone⟩).withSink
        (OutputSink.apply o.sink channel value).1) := by
  unfold offer note
  obtain ⟨sink, answer⟩ := OutputSink.apply o.sink channel value
  cases answer with
  | some refusal => rfl
  | none =>
    simp only [Tracker.stamp_eq _ hc hv]
    rfl

/-- The offers that a list of values leads to: handed over in order, each with an answer of the
sink. -/
structure Answered (σ : Type) [OutputSink σ] (asked : List (Nat × Float32))
    (offers : List Offer) : Prop where
  asked_eq : offers.map (fun f => (f.channel, f.value)) = asked
  answer : ∀ f ∈ offers, ∃ sink : σ, f.taken = (OutputSink.apply sink f.channel f.value).2.isNone

theorem Answered.cons {asked : List (Nat × Float32)} {offers : List Offer}
    (h : Answered σ asked offers) (channel : Nat) (value : Float32) (sink : σ) :
    Answered σ ((channel, value) :: asked)
      (⟨channel, value, (OutputSink.apply sink channel value).2.isNone⟩ :: offers) := by
  refine ⟨by rw [List.map_cons, h.asked_eq], fun f hf => ?_⟩
  rcases List.mem_cons.mp hf with rfl | hf
  · exact ⟨sink, rfl⟩
  · exact h.answer f hf

theorem Answered.exists_iff {asked : List (Nat × Float32)} {offers : List Offer}
    (h : Answered σ asked offers) {channel : Nat} {value : Float32} :
    (∃ taken, ⟨channel, value, taken⟩ ∈ offers) ↔ (channel, value) ∈ asked := by
  rw [← h.asked_eq, List.mem_map]
  constructor
  · rintro ⟨taken, hf⟩
    exact ⟨_, hf, rfl⟩
  · rintro ⟨⟨c, v, taken⟩, hf, heq⟩
    cases heq
    exact ⟨taken, hf⟩

theorem answered_handOver (sink : σ) (asked : List (Nat × Float32)) :
    Answered σ asked (OutputSink.handOver sink asked).2 := by
  induction asked generalizing sink with
  | nil => exact ⟨rfl, fun _ h => nomatch h⟩
  | cons x asked ih =>
    obtain ⟨channel, value⟩ := x
    exact (ih (OutputSink.apply sink channel value).1).cons channel value sink

/-- A recorder writes down what is handed over, and the sink behind it makes the same of it. -/
theorem handOver_recorder (r : Recorder σ) (asked : List (Nat × Float32)) :
    OutputSink.handOver r asked =
      (⟨(OutputSink.handOver r.sink asked).1, r.offers ++ (OutputSink.handOver r.sink asked).2⟩,
        (OutputSink.handOver r.sink asked).2) := by
  induction asked generalizing r with
  | nil => rw [OutputSink.handOver, OutputSink.handOver, List.append_nil]
  | cons x asked ih =>
    obtain ⟨channel, value⟩ := x
    simp only [OutputSink.handOver, ih]
    simp only [OutputSink.apply, Recorder.apply, List.append_assoc, List.singleton_append]

theorem Answered.channel_lt {τ : Type} {now : WeekTime} {o : ScheduledOutputs τ}
    {offers : List Offer} (h : Answered σ (due now o) offers) {f : Offer} (hf : f ∈ offers) :
    f.channel < outputChannels :=
  lt_of_mem_due (h.exists_iff.mp ⟨f.taken, hf⟩)

theorem offerAll_eq_handOver {now : WeekTime} (hv : now.Valid) (channel : Nat)
    (values : List (Option Float32)) (hlen : channel + values.length ≤ outputChannels)
    (o : ScheduledOutputs σ) :
    offerAll now channel values o =
      .ok (((OutputSink.handOver o.sink (offered channel values)).2.foldl (note now) o).withSink
        (OutputSink.handOver o.sink (offered channel values)).1) := by
  induction values generalizing channel o with
  | nil => rfl
  | cons value values ih =>
    have hlen' : channel + 1 + values.length ≤ outputChannels := by
      rw [List.length_cons] at hlen
      omega
    cases value with
    | none => exact ih (channel + 1) hlen' o
    | some value =>
      have hc : channel < outputChannels := by omega
      rw [offerAll, offer_eq o hv hc]
      refine (ih (channel + 1) hlen' _).trans ?_
      rw [foldl_note_withSink]
      rfl

/-- **An update hands over the values there are, in order, and notes the answers.** -/
theorem update_eq_handOver {now : WeekTime} (hv : now.Valid) (time : Int)
    (o : ScheduledOutputs σ) :
    o.update ⟨time, some now⟩ =
      .ok (((OutputSink.handOver o.sink (due now o)).2.foldl (note now) o).withSink
        (OutputSink.handOver o.sink (due now o)).1) := by
  have hall := offerAll_eq_handOver hv 0
    ((List.range outputChannels).map fun c => o.tracker.valueAt o.schedule c now) (by simp) o
  unfold update
  simp only [Tracker.values_eq o.tracker o.schedule hv, bind, Except.bind]
  rw [hall]
  rfl

/-- **An update offers the values there are and notes which were taken.** -/
theorem exists_update_eq {now : WeekTime} (hv : now.Valid) (time : Int) (o : ScheduledOutputs σ) :
    ∃ (sink : σ) (offers : List Offer), Answered σ (due now o) offers ∧
      o.update ⟨time, some now⟩ = .ok ((offers.foldl (note now) o).withSink sink) :=
  ⟨_, _, answered_handOver o.sink (due now o), update_eq_handOver hv time o⟩

/-- **An update offers the values there are and notes which were taken**, and a recorder writes down
just these. -/
theorem update_eq {now : WeekTime} (hv : now.Valid) (time : Int)
    (o : ScheduledOutputs (Recorder σ)) :
    ∃ sink offers, Answered σ (due now o) offers ∧
      o.update ⟨time, some now⟩ = .ok ((offers.foldl (note now) o).withSink sink) ∧
      sink.offers = o.sink.offers ++ offers := by
  have hupdate := update_eq_handOver hv time o
  rw [handOver_recorder] at hupdate
  exact ⟨_, _, answered_handOver o.sink.sink (due now o), hupdate, rfl⟩

/-- The outputs without the recorder in front of the sink. -/
def forget (o : ScheduledOutputs (Recorder σ)) : ScheduledOutputs σ := o.withSink o.sink.sink

theorem offer_forget (now : WeekTime) (o : ScheduledOutputs (Recorder σ)) (channel : Nat)
    (value : Float32) :
    (o.offer now channel value).map forget = o.forget.offer now channel value := by
  have happly : OutputSink.apply o.sink channel value =
      (⟨(OutputSink.apply o.sink.sink channel value).1, o.sink.offers ++
        [⟨channel, value, (OutputSink.apply o.sink.sink channel value).2.isNone⟩]⟩,
        (OutputSink.apply o.sink.sink channel value).2) := rfl
  have hforget : o.forget.sink = o.sink.sink := rfl
  have htracker : o.forget.tracker = o.tracker := rfl
  unfold offer
  rw [happly, hforget, htracker]
  obtain ⟨sink, answer⟩ := OutputSink.apply o.sink.sink channel value
  cases answer with
  | some refusal => rfl
  | none =>
    cases hstamp : o.tracker.stamp channel now with
    | error fault => rfl
    | ok stamped => rfl

theorem offerAll_forget (now : WeekTime) (channel : Nat) (values : List (Option Float32))
    (o : ScheduledOutputs (Recorder σ)) :
    (offerAll now channel values o).map forget = offerAll now channel values o.forget := by
  induction values generalizing channel o with
  | nil => rfl
  | cons value values ih =>
    cases value with
    | none => exact ih (channel + 1) o
    | some value =>
      simp only [offerAll, ← offer_forget now o channel value, bind, Except.bind]
      cases o.offer now channel value with
      | error fault => rfl
      | ok o => exact ih (channel + 1) o

/-- **A recorder changes nothing but its record.** -/
theorem update_forget (tick : Tick) (o : ScheduledOutputs (Recorder σ)) :
    (o.update tick).map forget = o.forget.update tick := by
  obtain ⟨time, localTime⟩ := tick
  cases localTime with
  | none => rfl
  | some now =>
    have hvalues : o.forget.tracker.values o.forget.schedule now =
        o.tracker.values o.schedule now := rfl
    unfold update
    simp only [hvalues]
    generalize o.tracker.values o.schedule now = evaluated
    cases evaluated with
    | error fault => rfl
    | ok values =>
      simp only [bind, Except.bind, ← offerAll_forget now 0 values o]
      cases offerAll now 0 values o <;> rfl

end Updating

end ScheduledOutputs

end Aquarium
