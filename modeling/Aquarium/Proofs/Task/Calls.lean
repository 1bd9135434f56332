import Aquarium.Proofs.Task.History

/-!
# When the tasks of a pool are called

As long as every callback returns, a pass calls what is due and nothing else. What this comes to
over a whole history is found by keeping track of one fact: a task that is in the table has run last
at the latest of its calls, or later than that.

* `PoolHistory.calls`: the moments at which the task of a number was called;
* `PoolHistory.Timely`: a single-shot task is called once, the calls of another one are its interval
  apart, and nothing is called that was taken out;
* `PoolHistory.Timed.step`, `PoolHistory.timed_after`: one event keeps this, and so do many;
* `PoolHistory.runs_what_is_due`: a pass at any moment of any history calls what is due, slot by
  slot, and the history is timely.
-/

namespace Aquarium

/-! ## 1. The calls of a task -/

namespace PoolTask

variable {κ : Type} {t : PoolTask κ} {moments : List Int} {now : Int}

/-- A task may have been called at these moments, the latest first. -/
structure InTime (t : PoolTask κ) (moments : List Int) : Prop where
  /-- A single-shot task is called once at most. -/
  single : t.singleShot = true → moments.length ≤ 1
  /-- From one call to the next, at least the interval goes by. -/
  spaced : moments.Pairwise fun later earlier : Int => earlier + t.interval ≤ later
  /-- A task without a callback is never called. -/
  idle : t.callback = none → moments = []

theorem inTime_nil (t : PoolTask κ) : t.InTime [] :=
  ⟨fun _ => Nat.zero_le 1, List.Pairwise.nil, fun _ => rfl⟩

theorem InTime.cons (h : t.InTime moments) (hcallback : t.callback.isSome = true)
    (hfirst : t.singleShot = true → moments = []) (hspace : ∀ n ∈ moments, n + t.interval ≤ now) :
    t.InTime (now :: moments) := by
  refine ⟨?_, List.pairwise_cons.mpr ⟨hspace, h.spaced⟩, ?_⟩
  · intro hsingle
    rw [hfirst hsingle]
    exact Nat.le_refl 1
  · intro hnone
    rw [hnone] at hcallback
    cases hcallback

end PoolTask

/-- The moments at which a record says that the task of a number was called. -/
def PoolRecord.moments {κ : Type} (id : Nat) : PoolRecord κ → List Int
  | ran now called => List.replicate ((called.map Posted.id).count id) now
  | _ => []

namespace PoolHistory

variable {κ σ : Type} {capacity : Nat} {call : Caller κ σ} {s s' : PoolHistory κ σ capacity}

/-- The moments at which the task of a number was called, the latest first. -/
def calls (s : PoolHistory κ σ capacity) (id : Nat) : List Int :=
  s.records.flatMap (PoolRecord.moments id)

/-- What is promised about the calls of a pool with this history. -/
structure Timely (s : PoolHistory κ σ capacity) : Prop where
  inTime : ∀ g ∈ s.given, g.2.InTime (s.calls g.1.id)
  /-- No task is called once it was taken out. -/
  silent : s.records.Pairwise fun later earlier =>
    ∀ id, earlier = .removed id → later.moments id = []

/-- What the table tells about the calls. -/
structure Timed (s : PoolHistory κ σ capacity) : Prop extends Timely s where
  known : ∀ id, s.calls id ≠ [] → ∃ g ∈ s.given, g.1.id = id
  /-- A task that was called and is still there runs again and again, and it has run last at the
  latest of its calls or later. -/
  last : ∀ p ∈ s.pool.toList, ∀ n ∈ s.calls p.id,
    p.task.singleShot = false ∧ ∃ last, p.task.last = some last ∧ n ≤ last
  removed : ∀ id, .removed id ∈ s.records → id ≤ s.pool.lastId ∧ s.pool.contains id = false

theorem timed_start (timing : PoolTiming) (world : σ) :
    (start timing world : PoolHistory κ σ capacity).Timed where
  inTime := nofun
  silent := List.Pairwise.nil
  known := fun _ hcalled => absurd rfl hcalled
  last := nofun
  removed := nofun

/-! ## 2. One event -/

theorem moments_ran_of_mem {ps : List (Posted κ)} (hdistinct : (ps.map Posted.id).Nodup)
    {p : Posted κ} (hp : p ∈ ps) (now : Int) : (PoolRecord.ran now ps).moments p.id = [now] := by
  show List.replicate ((ps.map Posted.id).count p.id) now = [now]
  rw [List.count_eq_one_of_mem hdistinct (List.mem_map_of_mem hp)]
  rfl

theorem moments_ran_of_forall {ps : List (Posted κ)} {id : Nat} (h : ∀ p ∈ ps, p.id ≠ id)
    (now : Int) : (PoolRecord.ran now ps).moments id = [] := by
  have habsent : id ∉ ps.map Posted.id := by
    intro hin
    obtain ⟨p, hp, hid⟩ := List.mem_map.mp hin
    exact h p hp hid
  show List.replicate ((ps.map Posted.id).count id) now = []
  rw [List.count_eq_zero_of_not_mem habsent]
  rfl

/-- A pass calls the task of a number once if it is there and due, and otherwise not at all. -/
theorem Numbered.moments_ran (h : s.Numbered) (now : Int) (id : Nat) :
    (∃ p ∈ s.pool.toList, p.id = id ∧ p.task.isDue now = true ∧
        (PoolRecord.ran now (s.pool.due now)).moments id = [now]) ∨
      (∀ p ∈ s.pool.toList, p.id = id → p.task.isDue now = false) ∧
        (PoolRecord.ran now (s.pool.due now)).moments id = [] := by
  by_cases hdue : ∃ p ∈ s.pool.due now, p.id = id
  · obtain ⟨p, hp, rfl⟩ := hdue
    have hdistinct : ((s.pool.due now).map Posted.id).Nodup :=
      h.distinct.sublist (List.filter_sublist.map Posted.id)
    obtain ⟨hmem, hnow⟩ := List.mem_filter.mp hp
    exact Or.inl ⟨p, hmem, rfl, hnow, moments_ran_of_mem hdistinct hp now⟩
  · refine Or.inr ⟨?_, moments_ran_of_forall (fun p hp hid => hdue ⟨p, hp, hid⟩) now⟩
    intro p hp hid
    exact Bool.eq_false_iff.mpr fun hnow => hdue ⟨p, List.mem_filter.mpr ⟨hp, hnow⟩, hid⟩

theorem Numbered.moments_ran_of_mem (h : s.Numbered) (now : Int) {p : Posted κ}
    (hp : p ∈ s.pool.toList) : (PoolRecord.ran now (s.pool.due now)).moments p.id =
      if p.task.isDue now then [now] else [] := by
  rcases h.moments_ran now p.id with ⟨q, hq, hid, hdue, hmoments⟩ | ⟨hnone, hmoments⟩
  · have hsame : q = p := List.inj_on_of_nodup_map h.distinct hq hp hid
    rw [← hsame, hdue, hsame, hmoments]
    rfl
  · rw [hnone p hp rfl, hmoments]
    rfl

/-- A task that is due was called its interval ago or earlier. -/
theorem Timed.interval_le (h : s.Timed) {p : Posted κ} (hp : p ∈ s.pool.toList) {now : Int}
    (hdue : p.task.isDue now = true) {n : Int} (hn : n ∈ s.calls p.id) :
    n + p.task.interval ≤ now := by
  obtain ⟨-, last, hlast, hle⟩ := h.last p hp n hn
  have hnow := (PoolTask.isDue_iff.mp hdue).2 last hlast
  omega

/-- What was taken out stays out. -/
theorem Timed.absent_of_step (h : s.Timed) (hnum : s.Numbered) (hfew : s.Few)
    (hstep : Step call s s') {id : Nat} (hrecord : .removed id ∈ s.records) :
    id ≤ s'.pool.lastId ∧ s'.pool.contains id = false := by
  obtain ⟨hle, habsent⟩ := h.removed id hrecord
  refine ⟨Nat.le_trans hle (hnum.lastId_le_step hfew hstep), ?_⟩
  rw [Bool.eq_false_iff] at habsent ⊢
  intro hheld
  exact habsent (hnum.contains_of_step hfew hstep hle hheld)

theorem Timed.posted (h : s.Timed) (hnum : s.Numbered) (hfew : s.Few) {task : PoolTask κ}
    (hroom : s.pool.tasks.isFull = false)
    (hout : ∀ id, .removed id ∈ s.records →
      id ≤ (s.pool.post task).2.lastId ∧ (s.pool.post task).2.contains id = false) :
    Timed ⟨(s.pool.post task).2, s.world,
      .posted ⟨TaskPool.nextId s.pool.lastId, true⟩ task :: s.records⟩ := by
  have htable := TaskPool.toList_post_perm hroom task
  rw [hnum.nextId_eq hfew] at htable ⊢
  -- the new number was never called
  have hnew : s.calls (s.pool.lastId + 1) = [] := by
    by_contra hcalled
    obtain ⟨g, hg, hid⟩ := h.known _ hcalled
    have hle := (hnum.range g hg).2.2
    omega
  refine ⟨⟨?_, ?_⟩, ?_, ?_, ?_⟩
  · intro g hg
    rcases List.mem_cons.mp hg with rfl | hg
    · show task.InTime (s.calls (s.pool.lastId + 1))
      rw [hnew]
      exact task.inTime_nil
    · exact h.inTime g hg
  · exact List.pairwise_cons.mpr ⟨fun _ _ _ _ => rfl, h.silent⟩
  · intro id hcalled
    obtain ⟨g, hg, hid⟩ := h.known id hcalled
    exact ⟨g, List.mem_cons_of_mem _ hg, hid⟩
  · intro p hp n hn
    rcases List.mem_cons.mp (htable.mem_iff.mp hp) with rfl | hp
    · have hcalled : n ∈ s.calls (s.pool.lastId + 1) := hn
      rw [hnew] at hcalled
      cases hcalled
    · exact h.last p hp n hn
  · intro id hrecord
    rcases List.mem_cons.mp hrecord with heq | hrecord
    · cases heq
    · exact hout id hrecord

theorem Timed.takenOut (h : s.Timed) (hnum : s.Numbered) {id : Nat}
    (hheld : s.pool.contains id = true)
    (hout : ∀ id', .removed id' ∈ s.records →
      id' ≤ (s.pool.remove id).2.lastId ∧ (s.pool.remove id).2.contains id' = false) :
    Timed ⟨(s.pool.remove id).2, s.world, .removed id :: s.records⟩ := by
  have htable := s.pool.toList_remove id
  refine ⟨⟨h.inTime, ?_⟩, h.known, ?_, ?_⟩
  · exact List.pairwise_cons.mpr ⟨fun _ _ _ _ => rfl, h.silent⟩
  · intro p hp n hn
    exact h.last p (List.mem_filter.mp (htable ▸ hp)).1 n hn
  · intro id' hrecord
    rcases List.mem_cons.mp hrecord with heq | hrecord
    · cases heq
      obtain ⟨p, hp, hid⟩ := TaskPool.contains_iff.mp hheld
      have hle := (hnum.id_le hp).2
      refine ⟨by rwa [TaskPool.lastId_remove, ← hid], ?_⟩
      refine Bool.eq_false_iff.mpr fun hstill => ?_
      obtain ⟨q, hq, hqid⟩ := TaskPool.contains_iff.mp hstill
      have hother := (List.mem_filter.mp (htable ▸ hq)).2
      exact bne_iff_ne.mp hother hqid
    · exact hout id' hrecord

theorem Timed.timely_ran (h : s.Timed) (hnum : s.Numbered) (now : Int)
    (pool : TaskPool κ capacity) (world : σ) :
    Timely ⟨pool, world, .ran now (s.pool.due now) :: s.records⟩ := by
  refine ⟨?_, ?_⟩
  · intro g hg
    show g.2.InTime ((PoolRecord.ran now (s.pool.due now)).moments g.1.id ++ s.calls g.1.id)
    rcases hnum.moments_ran now g.1.id with ⟨p, hp, hid, hdue, hmoments⟩ | ⟨-, hmoments⟩
    · rw [hmoments]
      have htask := hnum.task_eq hp hg hid
      have hcallback := (PoolTask.isDue_iff.mp hdue).1
      rw [htask] at hcallback
      refine (h.inTime g hg).cons hcallback (fun hsingle => ?_) (fun n hn => ?_)
      · -- a single-shot task that was called before would not be there
        refine List.eq_nil_iff_forall_not_mem.mpr fun n hn => ?_
        have hagain := (h.last p hp n (hid ▸ hn)).1
        rw [htask] at hagain
        rw [hsingle] at hagain
        cases hagain
      · have hle := h.interval_le hp hdue (hid ▸ hn)
        rw [htask] at hle
        exact hle
    · rw [hmoments]
      exact h.inTime g hg
  · refine List.pairwise_cons.mpr ⟨fun earlier hearlier id heq => ?_, h.silent⟩
    rcases hnum.moments_ran now id with ⟨p, hp, hid, -, -⟩ | ⟨-, hmoments⟩
    · have habsent := (h.removed id (heq ▸ hearlier)).2
      rw [TaskPool.contains_iff.mpr ⟨p, hp, hid⟩] at habsent
      cases habsent
    · exact hmoments

/-- What a pass leaves has run last at the latest of its calls or later. -/
theorem Timed.last_ran (h : s.Timed) (hnum : s.Numbered) {now : Int} {p q : Posted κ}
    (hp : p ∈ s.pool.toList) (hafter : p.after now = some q) {n : Int}
    (hn : n ∈ (PoolRecord.ran now (s.pool.due now)).moments q.id ++ s.calls q.id) :
    q.task.singleShot = false ∧ ∃ last, q.task.last = some last ∧ n ≤ last := by
  rw [Posted.id_of_after hafter, hnum.moments_ran_of_mem now hp] at hn
  rcases Posted.cases_of_after hafter with ⟨hdue, rfl⟩ | ⟨hdue, hsingle, rfl⟩
  · rw [hdue] at hn
    exact h.last q hp n hn
  · refine ⟨hsingle, now, rfl, ?_⟩
    rw [hdue] at hn
    rcases List.mem_cons.mp hn with rfl | hn
    · exact Int.le_refl n
    · have hle := h.interval_le hp hdue hn
      omega

theorem Timed.ran (hcall : Returns call) (h : s.Timed) (hnum : s.Numbered) (now : Int)
    (hout : ∀ id, .removed id ∈ s.records → id ≤ (s.pool.pass call now s.world).1.lastId ∧
      (s.pool.pass call now s.world).1.contains id = false) :
    Timed ⟨(s.pool.pass call now s.world).1, (s.pool.pass call now s.world).2.1,
      .ran now (s.pool.due now) :: s.records⟩ := by
  refine ⟨h.timely_ran hnum now _ _, ?_, ?_, ?_⟩
  · intro id hcalled
    rcases hnum.moments_ran now id with ⟨p, hp, hid, -, -⟩ | ⟨-, hmoments⟩
    · obtain ⟨g, hg, hgid, -⟩ := hnum.posted p hp
      exact ⟨g, hg, hgid.trans hid⟩
    · refine h.known id fun hnone => hcalled ?_
      show (PoolRecord.ran now (s.pool.due now)).moments id ++ s.calls id = []
      rw [hmoments, hnone]
      rfl
  · intro q hq n hn
    obtain ⟨p, hp, hafter⟩ := TaskPool.exists_of_mem_pass_of_returns hcall hq
    exact h.last_ran hnum hp hafter hn
  · intro id hrecord
    rcases List.mem_cons.mp hrecord with heq | hrecord
    · cases heq
    · exact hout id hrecord

/-- **One event keeps the calls in time.** -/
theorem Timed.step (hcall : Returns call) (h : s.Timed) (hnum : s.Numbered) (hfew : s.Few)
    (hstep : Step call s s') : s'.Timed := by
  have hout := fun id (hrecord : .removed id ∈ s.records) =>
    h.absent_of_step hnum hfew hstep hrecord
  cases hstep with
  | rest => exact h
  | posted task hroom => exact h.posted hnum hfew hroom hout
  | removed id hheld => exact h.takenOut hnum hheld hout
  | ran now =>
      have hran := h.ran hcall hnum now hout
      rwa [callAll_of_returns hcall]

/-! ## 3. Whole histories -/

/-- **As long as the numbers last and every callback returns, the calls are in time**, whatever is
done to a pool. -/
theorem timed_after (hcall : Returns call) (timing : PoolTiming) (world : σ)
    {events : List (PoolEvent κ)}
    (hfew : ((start timing world : PoolHistory κ σ capacity).after call events).Few) :
    ((start timing world : PoolHistory κ σ capacity).after call events).Numbered ∧
      ((start timing world : PoolHistory κ σ capacity).after call events).Timed :=
  (numbered_start timing world).after_induction (timed_start timing world)
    (fun _ _ hnum hfew_now hstep h => h.step hcall hnum hfew_now hstep) hfew

/-- What a pass at a moment is that calls what is due, and does nothing else. -/
structure RunsDue (call : Caller κ σ) (now : Int) (s : PoolHistory κ σ capacity) : Prop where
  /-- A task is due if it has a callback, and never ran or ran its interval ago. -/
  due_iff : ∀ p, p ∈ s.pool.due now ↔ p ∈ s.pool.toList ∧ p.task.callback.isSome = true ∧
    ∀ last, p.task.last = some last → last + p.task.interval ≤ now
  /-- What is due is called in the order of the slots, and once each. -/
  order : (s.pool.due now).Sublist s.pool.toList ∧ ((s.pool.due now).map Posted.id).Nodup
  world : (s.meet call (.pass now)).world = worldAfter call (s.pool.due now) s.world
  records : (s.meet call (.pass now)).records = .ran now (s.pool.due now) :: s.records
  deadline : ∃ d, (s.pool.pass call now s.world).2.2 = .ok d
  /-- Of what was called, a single-shot task is gone, and another one has run now. -/
  called : ∀ i p, s.pool.tasks.get? i = some p → p ∈ s.pool.due now →
    (s.meet call (.pass now)).pool.tasks.get? i =
      if p.task.singleShot then none else some ⟨p.id, { p.task with last := some now }⟩
  /-- A task that is not due stays as it is. -/
  stays : ∀ i p, s.pool.tasks.get? i = some p → p ∉ s.pool.due now →
    (s.meet call (.pass now)).pool.tasks.get? i = some p
  empty : ∀ i, s.pool.tasks.get? i = none →
    (s.meet call (.pass now)).pool.tasks.get? i = none
  rest : (s.meet call (.pass now)).pool =
    { s.pool with tasks := (s.meet call (.pass now)).pool.tasks }

theorem Numbered.runsDue (hcall : Returns call) (h : s.Numbered) (now : Int) :
    s.RunsDue call now := by
  have hpass := s.pool.pass_of_returns hcall now s.world
  have hdue : ∀ p, p ∈ s.pool.due now ↔ p ∈ s.pool.toList ∧ p.task.isDue now = true :=
    fun p => List.mem_filter
  have hcell : ∀ i, (s.meet call (.pass now)).pool.tasks.get? i =
      (s.pool.tasks.get? i).bind (Posted.after now) := by
    intro i
    rw [meet, hpass]
    exact Slots.get?_mapCells (by rfl) s.pool.tasks i
  have hmem : ∀ {i p}, s.pool.tasks.get? i = some p → p ∈ s.pool.toList :=
    fun hp => Slots.mem_values_iff.mpr ⟨_, hp⟩
  refine ⟨?_, ⟨List.filter_sublist, h.distinct.sublist (List.filter_sublist.map _)⟩, ?_, ?_,
    ⟨_, congrArg (·.2.2) hpass⟩, ?_, ?_, ?_, ?_⟩
  · intro p
    rw [hdue, PoolTask.isDue_iff]
  · exact congrArg (·.2.1) hpass
  · rw [meet, callAll_of_returns hcall]
  · intro i p hp hcalled
    rw [hcell, hp, Option.bind_some, Posted.after, if_pos ((hdue p).mp hcalled).2]
  · intro i p hp hleft
    have hnot : p.task.isDue now = false :=
      Bool.eq_false_iff.mpr fun hnow => hleft ((hdue p).mpr ⟨hmem hp, hnow⟩)
    rw [hcell, hp, Option.bind_some, Posted.after_of_not_due hnot]
  · intro i hnone
    rw [hcell, hnone]
    rfl
  · rw [meet, hpass]

/-- **A pool runs each task exactly when it is due**, whatever was posted, taken out or run before,
as long as every callback returns and the numbers last. -/
theorem runs_what_is_due (hcall : Returns call) (timing : PoolTiming) (world : σ)
    (events : List (PoolEvent κ)) {s : PoolHistory κ σ capacity}
    (hs : s = (start timing world).after call events) (hfew : s.Few) :
    (∀ now, s.RunsDue call now) ∧ s.Timely ∧ s.pool.size ≤ capacity := by
  rw [hs] at hfew ⊢
  obtain ⟨hnum, htimed⟩ := timed_after hcall timing world hfew
  refine ⟨?_, htimed.toTimely, ?_⟩
  · intro now
    exact hnum.runsDue hcall now
  · exact Slots.count_le _

/-- Two tasks, the first of which runs once and the second of which is taken out after two calls. -/
theorem runs_what_is_due_of_two :
    let call : Caller String (List String) := fun name names => (names ++ [name], none)
    let s : PoolHistory String (List String) 2 := (start .standard []).after call
      [.post (.once "lamp" "lamp"), .post (.periodic "pump" 10 "pump"), .pass 3, .pass 8, .pass 13,
        .release ⟨2, true⟩, .pass 30]
    Returns call ∧ s.Few ∧ (∀ now, s.RunsDue call now) ∧ s.Timely ∧
      s.world = ["lamp", "pump", "pump"] ∧ s.calls 1 = [3] ∧ s.calls 2 = [13, 3] := by
  intro call s
  have hcall : Returns call := fun _ _ => rfl
  have hfew : s.Few := by decide
  obtain ⟨hdue, htimely, -⟩ := runs_what_is_due hcall .standard [] _ rfl hfew
  refine ⟨hcall, hfew, hdue, htimely, ?_, ?_, ?_⟩
  · decide
  · decide
  · decide

end PoolHistory

end Aquarium
