import Aquarium.Proofs.Device.Update
import Aquarium.Proofs.Service.Course
import Aquarium.Proofs.Service.History

/-!
# Which channel times reach their file

The outputs mark that a channel was set, and a saving of the channel times takes the mark away. It
does so before it saves. A save that fails is passed over, and the mark is gone all the same.

* `ChannelState.readText_toJson`: the file of the channel times is read back;
* `ScheduledOutputs.updated_times`, `ScheduledOutputs.updated_dirty_iff`: which channels an update
  sets, and that it marks it;
* `SaveStep`, `through`: updates, savings and changes of the data directory in any order;
* `Unseen`, `Unsaved`: what was set since the last call to save, and since the last save that
  succeeded;
* `loads_after_persist_iff`: what is in the file after a call to save;
* `unsaved_iff_unseen`: as long as no save fails the two are one;
* `exists_time_lost`: after a save that failed they are not.
-/

namespace Aquarium

/-! ## 1. The file of the channel times -/

theorem Json.asOption_nat {bound : Nat} (hbound : bound ≤ word64) {x : Option Nat}
    (h : ∀ n, x = some n → n < bound) :
    Json.asOption (Json.asNat bound) (Json.option .nat x) = .ok x := by
  cases x with
  | none => rfl
  | some n =>
      show (do return some (← Json.asNat bound (.nat n))) = _
      rw [Json.asNat_nat hbound (h n rfl)]
      rfl

namespace ChannelState

theorem written_toJson (c : ChannelState) : c.toJson.Written := by
  refine .record fun m hm => ?_
  rw [List.mem_singleton.mp hm]
  refine .list fun v hv => ?_
  obtain ⟨x, -, rfl⟩ := List.mem_map.mp hv
  cases x with
  | none => exact .null
  | some n => exact .nat n

/-- **The file is read back**, if its times are within their words. -/
theorem readText_toJson {c : ChannelState} (h : ∀ x ∈ c.times, ∀ n, x = some n → n < word32) :
    Json.readText ofJson c.toJson.pretty = .ok c := by
  have hitems : Json.asList (Json.asOption (Json.asNat word32))
      (.list (c.times.map (Json.option .nat))) = .ok c.times :=
    Json.asList_list fun x hx => Json.asOption_nat (by decide) (h x hx)
  have hkeys : (fields.map Json.Field.key).Nodup := List.nodup_singleton _
  rw [Json.readText_pretty _ c.written_toJson]
  refine (Json.asRecord_record hkeys [.list (c.times.map (Json.option .nat))] rfl _).trans ?_
  simp only [fields, Json.setItems, Json.Field.needed, hitems, bind, Except.bind, pure,
    Except.pure, if_true]

end ChannelState

/-! ## 2. An update of pulse width outputs -/

namespace ScheduledOutputs

variable {σ : Type}

/-- An update now sets the channel. -/
def SetsAt (o : ScheduledOutputs σ) (channel : Nat) (now : WeekTime) : Prop :=
  ∃ value, o.tracker.valueAt o.schedule channel now = some value

/-- An update hands over the values there are, and the outputs take each of them. -/
theorem exists_updated_eq {now : WeekTime} (hv : now.Valid) (time : Int)
    (o : ScheduledOutputs Pwm) :
    ∃ (sink : Pwm) (offers : List Offer),
      o.updated ⟨time, some now⟩ = (offers.foldl (note now) o).withSink sink ∧
      (∀ f ∈ offers, f.channel < outputChannels ∧ f.taken = true) ∧
      ∀ channel, (∃ f ∈ offers, f.channel = channel) ↔ o.SetsAt channel now := by
  obtain ⟨sink, offers, hanswered, hupdate⟩ := exists_update_eq hv time o
  refine ⟨sink, offers, ?_, fun f hf => ?_, fun channel => ?_⟩
  · unfold updated
    rw [hupdate]
  · have hc := hanswered.channel_lt hf
    obtain ⟨p, hanswer⟩ := hanswered.answer f hf
    have haccepted : (OutputSink.apply p f.channel f.value).2 = none :=
      congrArg Prod.snd (if_pos hc)
    rw [hanswer, haccepted]
    exact ⟨hc, rfl⟩
  · constructor
    · rintro ⟨f, hf, rfl⟩
      exact ⟨f.value, mem_due_iff.mp (hanswered.exists_iff.mp ⟨f.taken, hf⟩)⟩
    · rintro ⟨value, hvalue⟩
      obtain ⟨taken, hf⟩ := hanswered.exists_iff.mpr (mem_due_iff.mpr hvalue)
      exact ⟨_, hf, rfl⟩

/-- **A channel that an update sets was last set now**, and the others when they were before. -/
theorem updated_times {now : WeekTime} (hv : now.Valid) (time : Int) (o : ScheduledOutputs Pwm)
    (channel : Nat) :
    (o.SetsAt channel now →
      (o.updated ⟨time, some now⟩).tracker.times.get? channel = some now.position) ∧
    (¬ o.SetsAt channel now →
      (o.updated ⟨time, some now⟩).tracker.times.get? channel =
        o.tracker.times.get? channel) := by
  obtain ⟨sink, offers, hupdated, htaken, hsets⟩ := exists_updated_eq hv time o
  rw [hupdated, tracker_withSink, times_foldl_note fun f hf => (htaken f hf).1]
  constructor
  · intro hset
    obtain ⟨f, hf, hc⟩ := (hsets channel).mpr hset
    exact if_pos ⟨f, hf, hc, (htaken f hf).2⟩
  · intro hset
    refine if_neg ?_
    rintro ⟨f, hf, hc, -⟩
    exact hset ((hsets channel).mp ⟨f, hf, hc⟩)

/-- **An update marks that it has set a channel.** -/
theorem updated_dirty_iff {now : WeekTime} (hv : now.Valid) (time : Int)
    (o : ScheduledOutputs Pwm) :
    (o.updated ⟨time, some now⟩).dirty = true ↔
      (∃ channel, o.SetsAt channel now) ∨ o.dirty = true := by
  obtain ⟨sink, offers, hupdated, htaken, hsets⟩ := exists_updated_eq hv time o
  have hdirty : (o.updated ⟨time, some now⟩).dirty = (o.dirty || offers.any (·.taken)) := by
    rw [hupdated]
    exact dirty_foldl_note
  rw [hdirty, Bool.or_eq_true, List.any_eq_true, or_comm]
  refine or_congr_left ⟨?_, ?_⟩
  · rintro ⟨f, hf, -⟩
    exact ⟨f.channel, (hsets f.channel).mp ⟨f, hf, rfl⟩⟩
  · rintro ⟨channel, hset⟩
    obtain ⟨f, hf, -⟩ := (hsets channel).mpr hset
    exact ⟨f, hf, (htaken f hf).2⟩

/-- All times are seconds of a week. -/
def WithinWeek (o : ScheduledOutputs σ) : Prop :=
  ∀ channel second, o.tracker.times.get? channel = some second → second < secondsPerWeek

theorem WithinWeek.updated [OutputSink σ] {o : ScheduledOutputs σ} (h : o.WithinWeek)
    {now : WeekTime} (hv : now.Valid) (time : Int) :
    (o.updated ⟨time, some now⟩).WithinWeek := by
  obtain ⟨sink, offers, hanswered, hupdate⟩ := exists_update_eq hv time o
  intro channel second hsecond
  unfold ScheduledOutputs.updated at hsecond
  rw [hupdate, tracker_withSink, times_foldl_note fun f hf => hanswered.channel_lt hf] at hsecond
  split at hsecond
  · cases hsecond
    exact WeekTime.position_lt hv
  · exact h channel second hsecond

/-- Of times that are taken over, those outside of the week are dropped. -/
theorem get?_times_restore (o : ScheduledOutputs σ) (times : List (Option Nat)) (channel : Nat) :
    (o.restore times).tracker.times.get? channel =
      if channel < outputChannels then (times[channel]?).join.filter (· < secondsPerWeek)
      else none := by
  simp only [restore, Tracker.restore, Slots.get?, List.getElem?_map]
  by_cases hc : channel < outputChannels
  · rw [if_pos hc, List.getElem?_range hc]
    rfl
  · rw [if_neg hc, List.getElem?_eq_none (by simpa using hc)]
    rfl

theorem withinWeek_restore (o : ScheduledOutputs σ) (times : List (Option Nat)) :
    (o.restore times).WithinWeek := by
  intro channel second hsecond
  rw [get?_times_restore, Option.ite_none_right_eq_some] at hsecond
  exact of_decide_eq_true (Option.filter_eq_some_iff.mp hsecond.2).2

/-- Times within a week are read back from their file. -/
theorem WithinWeek.readText {o : ScheduledOutputs σ} (h : o.WithinWeek) :
    Json.readText ChannelState.ofJson (ChannelState.toJson ⟨o.channelTimes⟩).pretty =
      .ok ⟨o.channelTimes⟩ := by
  refine ChannelState.readText_toJson fun x hx n hn => ?_
  obtain ⟨channel, hchannel⟩ := List.mem_iff_getElem?.mp hx
  have hget : o.tracker.times.get? channel = some n := by
    rw [Slots.get?, show o.tracker.times.cells[channel]? = some x from hchannel, hn]
    rfl
  have hlt := h channel n hget
  simp only [secondsPerWeek, word32] at *
  omega

end ScheduledOutputs

namespace Controller

/-! ## 3. One saving -/

section Saving

variable {c : Controller} {o : ScheduledOutputs Pwm} {force : Bool}

/-- A call that has something to save, and can, replaces the file. -/
theorem store_persist_of_writable (ho : c.outputs? = some o)
    (hdue : o.dirty = true ∨ force = true) (hwritable : c.store.Writable .channelState) :
    (c.persistChannelState force).store =
      c.store.put .channelState (.text (ChannelState.toJson ⟨o.channelTimes⟩).pretty) := by
  have htimes : (if o.dirty = true then some o.channelTimes else none).or
      (if force = true then some o.channelTimes else none) = some o.channelTimes := by
    rcases hdue with hdirty | hforce
    · rw [if_pos hdirty, Option.some_or]
    · rw [if_pos hforce]
      split <;> rfl
  unfold persistChannelState
  rw [ho]
  simp only [ScheduledOutputs.takeDirty]
  have hsame : ({ o with dirty := false } : ScheduledOutputs Pwm).channelTimes = o.channelTimes :=
    rfl
  rw [hsame, htimes]
  simp only [store_setOutputs, Store.saveChannelState, hwritable.save_eq]

/-- What it leaves there are the times, if they are within a week. -/
theorem loads_persist_of_takes (ho : c.outputs? = some o) (hdue : o.dirty = true ∨ force = true)
    (htakes : c.store.Takes .channelState) (hwithin : o.WithinWeek) :
    (c.persistChannelState force).store.loadChannelState = .ok ⟨o.channelTimes⟩ := by
  rw [store_persist_of_writable ho hdue htakes.toWritable, Store.loadChannelState,
    Store.load_of_read? (htakes.read?_put _), hwithin.readText]
  rfl

/-- A call that has nothing to save, or cannot, leaves the data directory as it is. -/
theorem store_persist_of_not (ho : c.outputs? = some o)
    (h : ¬ ((o.dirty = true ∨ force = true) ∧ c.store.Writable .channelState)) :
    (c.persistChannelState force).store = c.store := by
  unfold persistChannelState
  rw [ho]
  simp only [ScheduledOutputs.takeDirty]
  split
  · exact store_setOutputs c _
  · rename_i times htimes
    split
    · rename_i store hsave
      refine absurd ⟨?_, ?_⟩ h
      · by_contra hidle
        rw [not_or] at hidle
        rw [if_neg hidle.1, if_neg hidle.2] at htimes
        cases htimes
      · rw [store_setOutputs] at hsave
        exact Store.writable_of_save hsave
    · exact store_setOutputs c _

end Saving

/-! ## 4. Updates, savings and changes of the data directory -/

/-- What matters to the channel times. A moment is a second counted from the start of some week; an
update without one comes before the clock is set. -/
inductive SaveStep where
  | tick (time : Int) (moment : Option Nat)
  | persist (force : Bool)
  | files (store : Store)

/-- The event that a step is. -/
def SaveStep.event : SaveStep → Event
  | .tick time moment => .tick ⟨time, moment.map .ofTimeOfWeek⟩
  | .persist force => .persist force
  | .files store => .files store

/-- The controller after steps, of which the latest comes first. -/
def through (c : Controller) : List SaveStep → Controller
  | [] => c
  | s :: steps => (c.through steps).meet s.event

section Through

variable (c : Controller) (steps : List SaveStep)

theorem outputs?_through_tick (time : Int) (moment : Option Nat) :
    (c.through (.tick time moment :: steps)).outputs? =
      (c.through steps).outputs?.map (·.updated ⟨time, moment.map .ofTimeOfWeek⟩) :=
  outputs?_tick _ _

theorem outputs?_through_persist (force : Bool) :
    (c.through (.persist force :: steps)).outputs? =
      (c.through steps).outputs?.map fun o => { o with dirty := false } :=
  outputs?_persistChannelState force _

theorem outputs?_through_files (store : Store) :
    (c.through (.files store :: steps)).outputs? = (c.through steps).outputs? := rfl

theorem store_through_tick (time : Int) (moment : Option Nat) :
    (c.through (.tick time moment :: steps)).store = (c.through steps).store := rfl

theorem store_through_files (store : Store) :
    (c.through (.files store :: steps)).store = store := rfl

end Through

/-- An update at this moment sets some channel. -/
def Sets (c : Controller) (moment : Option Nat) : Prop :=
  ∃ o now channel, c.outputs? = some o ∧ moment = some now ∧ o.SetsAt channel (.ofTimeOfWeek now)

/-- A call to save that saves, and succeeds. -/
def Saves (c : Controller) (force : Bool) : Prop :=
  ∃ o, c.outputs? = some o ∧ (o.dirty = true ∨ force = true) ∧ c.store.Writable .channelState

/-- Some channel was set since the latest call to save. -/
def Unseen (c : Controller) : List SaveStep → Prop
  | [] => False
  | .tick _ moment :: steps => (c.through steps).Sets moment ∨ c.Unseen steps
  | .persist _ :: _ => False
  | .files _ :: steps => c.Unseen steps

/-- Some channel was set since the latest save that succeeded. -/
def Unsaved (c : Controller) : List SaveStep → Prop
  | [] => False
  | .tick _ moment :: steps => (c.through steps).Sets moment ∨ c.Unsaved steps
  | .persist force :: steps => c.Unsaved steps ∧ ¬ (c.through steps).Saves force
  | .files _ :: steps => c.Unsaved steps

/-- No save fails: every call that has something to save succeeds. -/
def NeverFails (c : Controller) : List SaveStep → Prop
  | [] => True
  | .persist force :: steps => c.NeverFails steps ∧
    ∀ o, (c.through steps).outputs? = some o → o.dirty = true ∨ force = true →
      (c.through steps).store.Writable .channelState
  | _ :: steps => c.NeverFails steps

/-- The outputs after steps: their times are within a week, and the mark tells of what no call has
seen. -/
structure Marked (c : Controller) (steps : List SaveStep) (o : ScheduledOutputs Pwm) : Prop where
  outputs : (c.through steps).outputs? = some o
  within : o.WithinWeek
  dirty_iff : o.dirty = true ↔ c.Unseen steps

variable {c : Controller} {steps : List SaveStep} {o : ScheduledOutputs Pwm}

/-- One step keeps the mark right. -/
theorem Marked.next (h : Marked c steps o) (s : SaveStep) : ∃ o', Marked c (s :: steps) o' := by
  cases s with
  | tick time moment =>
      have houtputs : (c.through (.tick time moment :: steps)).outputs? =
          some (o.updated ⟨time, moment.map .ofTimeOfWeek⟩) := by
        rw [outputs?_through_tick, h.outputs, Option.map_some]
      cases moment with
      | none =>
          -- without a time of the week an update fails and leaves the outputs as they are
          refine ⟨_, houtputs, h.within, h.dirty_iff.trans (or_iff_right ?_).symm⟩
          rintro ⟨-, now, -, -, hnow, -⟩
          cases hnow
      | some now =>
          have hv := WeekTime.valid_ofTimeOfWeek now
          refine ⟨_, houtputs, h.within.updated hv time,
            (ScheduledOutputs.updated_dirty_iff hv time o).trans (or_congr ⟨?_, ?_⟩ h.dirty_iff)⟩
          · rintro ⟨channel, hset⟩
            exact ⟨o, now, channel, h.outputs, rfl, hset⟩
          · rintro ⟨o', now', channel, ho', hnow', hset⟩
            rw [h.outputs] at ho'
            cases ho'
            cases hnow'
            exact ⟨channel, hset⟩
  | persist force =>
      refine ⟨{ o with dirty := false }, ?_, h.within, iff_of_false Bool.false_ne_true id⟩
      rw [outputs?_through_persist, h.outputs, Option.map_some]
  | files store => exact ⟨o, h.outputs, h.within, h.dirty_iff⟩

theorem exists_marked (store : Store) (now : Int) (steps : List SaveStep) :
    ∃ o, Marked (start store true now) steps o := by
  induction steps with
  | nil =>
      refine ⟨startLights store store.startSettings, rfl, ?_, ?_⟩
      · unfold startLights
        split
        · exact ScheduledOutputs.withinWeek_restore _ _
        · intro channel second hsecond
          rw [show (ScheduledOutputs.new store.startSchedule
            store.startSettings.lights.transition Pwm.idle
            store.startSettings.lights.channelNames).tracker.times = Slots.empty from rfl,
            Slots.get?_empty] at hsecond
          cases hsecond
      · refine iff_of_false ?_ id
        unfold startLights
        split <;> exact Bool.false_ne_true
  | cons s steps ih =>
      obtain ⟨o, hmarked⟩ := ih
      exact hmarked.next s

/-! ## 5. What a call to save leaves in the file -/

/-- A call saves what is marked, or all if forced; else the file is as before. -/
theorem Marked.loads_iff (h : Marked c steps o)
    (htakes : (c.through steps).store.Takes .channelState) (force : Bool) :
    ((c.through steps).persistChannelState force).store.loadChannelState =
        .ok ⟨o.channelTimes⟩ ↔
      force = true ∨ c.Unseen steps ∨
        (c.through steps).store.loadChannelState = .ok ⟨o.channelTimes⟩ := by
  rw [← or_assoc, or_comm (a := force = true), ← h.dirty_iff]
  by_cases hdue : o.dirty = true ∨ force = true
  · exact iff_of_true (loads_persist_of_takes h.outputs hdue htakes h.within) (.inl hdue)
  · rw [store_persist_of_not h.outputs fun h => hdue h.1, or_iff_right hdue]

/-- **What is in the file after a call to save.** The controller was started on any store and has
gone through any updates, savings and changes of the data directory, and the file can be saved and
read. Then the call leaves the current channel times in the file if it is forced, or if some channel
was set since the latest call, be that one that saved or one that failed; else only if they were in
the file already. It takes the mark away in any case and changes nothing else about the outputs. -/
theorem loads_after_persist_iff (store : Store) (now : Int) (steps : List SaveStep)
    (htakes : ((start store true now).through steps).store.Takes .channelState) (force : Bool) :
    ∃ o, ((start store true now).through steps).outputs? = some o ∧
      (((start store true now).through steps).persistChannelState force).outputs? =
        some { o with dirty := false } ∧
      ((((start store true now).through steps).persistChannelState force).store.loadChannelState =
          .ok ⟨o.channelTimes⟩ ↔
        force = true ∨ (start store true now).Unseen steps ∨
          ((start store true now).through steps).store.loadChannelState =
            .ok ⟨o.channelTimes⟩) := by
  obtain ⟨o, hmarked⟩ := exists_marked store now steps
  refine ⟨o, hmarked.outputs, ?_, hmarked.loads_iff htakes force⟩
  rw [outputs?_persistChannelState, hmarked.outputs]
  rfl

/-! ## 6. A Monday morning -/

/-- A data directory with a schedule of one entry, on Monday at eight, and nothing else. -/
def mondayStore : Store :=
  { Store.empty with
    schedule := .text (lightEntriesToJson [⟨.monday, 28800, 0, Single.ofInt 10⟩]).pretty }

theorem takes_mondayStore : mondayStore.Takes .channelState := ⟨⟨rfl, rfl, nofun⟩, rfl⟩

theorem startSchedule_mondayStore :
    mondayStore.startSchedule = mondayMorning (Single.ofInt 10) := by
  have hread : mondayStore.read? .schedule =
      .ok (some (lightEntriesToJson [⟨.monday, 28800, 0, Single.ofInt 10⟩]).pretty) := rfl
  have hwords : InWords [⟨.monday, 28800, 0, Single.ofInt 10⟩] := by
    intro e he
    rw [List.mem_singleton.mp he]
    decide
  have hfinite : AllFinite [⟨.monday, 28800, 0, Single.ofInt 10⟩] := by
    intro e he
    rw [List.mem_singleton.mp he]
    decide +kernel
  unfold Store.startSchedule
  simp only [Store.loadSchedule_of_allFinite hwords hread hfinite]
  rw [ofEntries_mondayMorning]

/-- The lights of that data directory, which are set on Monday at eight. -/
theorem exists_outputs_mondayStore :
    ∃ o, (start mondayStore true 0).outputs? = some o ∧ o.SetsAt 0 (.ofTimeOfWeek 115200) := by
  refine ⟨startLights mondayStore mondayStore.startSettings, rfl, Single.ofInt 10, ?_⟩
  unfold startLights
  rw [startSchedule_mondayStore]
  rfl

/-- The first channel is set on Monday at eight, and then its time is saved. -/
theorem loads_after_persist_mondayMorning :
    ((start mondayStore true 0).through [.tick 0 (some 115200)]).store.Takes .channelState ∧
      ∃ o, ((start mondayStore true 0).through [.tick 0 (some 115200)]).outputs? = some o ∧
        o.tracker.times.get? 0 = some 115200 ∧
        (((start mondayStore true 0).through
          [.tick 0 (some 115200)]).persistChannelState false).store.loadChannelState =
            .ok ⟨o.channelTimes⟩ := by
  have htakes : ((start mondayStore true 0).through [.tick 0 (some 115200)]).store.Takes
      .channelState := by
    rw [store_through_tick]
    exact takes_mondayStore
  obtain ⟨o, ho, -, hloads⟩ := loads_after_persist_iff mondayStore 0 _ htakes false
  obtain ⟨before, hbefore, hset⟩ := exists_outputs_mondayStore
  have hsets : (start mondayStore true 0).Sets (some 115200) :=
    ⟨before, 115200, 0, hbefore, rfl, hset⟩
  refine ⟨htakes, o, ho, ?_, hloads.mpr (.inr (.inl (.inl hsets)))⟩
  rw [outputs?_through_tick, through, hbefore] at ho
  cases ho
  exact (ScheduledOutputs.updated_times (WeekTime.valid_ofTimeOfWeek 115200) 0 before 0).1 hset

/-! ## 7. Failing saves -/

/-- What no call has seen, no save has kept. -/
theorem unsaved_of_unseen (h : c.Unseen steps) : c.Unsaved steps := by
  induction steps with
  | nil => exact h
  | cons s steps ih =>
      cases s with
      | tick time moment => exact h.imp_right ih
      | persist force => exact absurd h id
      | files store => exact ih h

/-- **As long as no save fails, what a call has seen is in the file.** -/
theorem unsaved_iff_unseen {store : Store} {now : Int}
    (h : (start store true now).NeverFails steps) :
    (start store true now).Unsaved steps ↔ (start store true now).Unseen steps := by
  refine ⟨fun hunsaved => ?_, unsaved_of_unseen⟩
  induction steps with
  | nil => exact hunsaved
  | cons s steps ih =>
      cases s with
      | tick time moment => exact hunsaved.imp_right (ih h)
      | persist force =>
          obtain ⟨hbefore, hfails⟩ := hunsaved
          obtain ⟨o, hmarked⟩ := exists_marked store now steps
          have hdirty : o.dirty = true := hmarked.dirty_iff.mpr (ih h.1 hbefore)
          have hwritable := h.2 o hmarked.outputs (.inl hdirty)
          exact absurd ⟨o, hmarked.outputs, .inl hdirty, hwritable⟩ hfails
      | files store => exact ih h hunsaved

/-- **No channel time is lost as long as no save fails.** -/
theorem loads_after_persist_of_neverFails {store : Store} {now : Int}
    (h : (start store true now).NeverFails steps)
    (htakes : ((start store true now).through steps).store.Takes .channelState)
    (hunsaved : (start store true now).Unsaved steps) :
    ∃ o, ((start store true now).through steps).outputs? = some o ∧
      (((start store true now).through steps).persistChannelState false).store.loadChannelState =
        .ok ⟨o.channelTimes⟩ := by
  obtain ⟨o, hmarked⟩ := exists_marked store now steps
  have hunseen := (unsaved_iff_unseen h).mp hunsaved
  exact ⟨o, hmarked.outputs, (hmarked.loads_iff htakes false).mpr (.inr (.inl hunseen))⟩

/-- The first channel is set, the call to save finds the data directory blocked, and then it is as
before; the latest step comes first. -/
def blockedSave : List SaveStep :=
  [.files mondayStore, .persist false, .files mondayStore.block, .tick 0 (some 115200)]

/-- **A save that fails may lose a channel time.** The channel was set since the latest save that
succeeded, the data directory can be written again, and yet the next call to save leaves no time of
the channel in the file. -/
theorem exists_time_lost :
    ((start mondayStore true 0).through blockedSave).store.Takes .channelState ∧
      (start mondayStore true 0).Unsaved blockedSave ∧
      ∃ o, ((start mondayStore true 0).through blockedSave).outputs? = some o ∧
        o.tracker.times.get? 0 = some 115200 ∧
        (((start mondayStore true 0).through
          blockedSave).persistChannelState false).store.loadChannelState = .ok ⟨[]⟩ ∧
        (((start mondayStore true 0).through
          blockedSave).persistChannelState false).store.loadChannelState ≠
            .ok ⟨o.channelTimes⟩ := by
  obtain ⟨before, hbefore, hset⟩ := exists_outputs_mondayStore
  have hunsaved : (start mondayStore true 0).Unsaved blockedSave := by
    refine ⟨.inl ⟨before, 115200, 0, hbefore, rfl, hset⟩, ?_⟩
    rintro ⟨-, -, -, hwritable⟩
    rw [store_through_files] at hwritable
    cases hwritable.make
  have houtputs : ((start mondayStore true 0).through blockedSave).outputs? =
      some { before.updated ⟨0, some (.ofTimeOfWeek 115200)⟩ with dirty := false } := by
    rw [blockedSave, outputs?_through_files, outputs?_through_persist, outputs?_through_files,
      outputs?_through_tick, through, hbefore]
    rfl
  have hstore : (((start mondayStore true 0).through
      blockedSave).persistChannelState false).store = mondayStore := by
    rw [store_persist_of_not houtputs fun h => h.1.elim Bool.false_ne_true Bool.false_ne_true,
      blockedSave, store_through_files]
  have hloads : mondayStore.loadChannelState = .ok ⟨[]⟩ := rfl
  refine ⟨?_, hunsaved, _, houtputs, ?_, by rw [hstore, hloads], fun hkept => ?_⟩
  · rw [blockedSave, store_through_files]
    exact takes_mondayStore
  · exact (ScheduledOutputs.updated_times (WeekTime.valid_ofTimeOfWeek 115200) 0 before 0).1 hset
  · rw [hstore, hloads] at hkept
    have hlength := congrArg (fun state => state.times.length) (Except.ok.inj hkept)
    rw [List.length_nil, ScheduledOutputs.channelTimes, Slots.length_cells] at hlength
    cases hlength

end Controller

end Aquarium
