import Aquarium.Proofs.Task.Calls

/-!
# Tasks that fail

A task that fails ends the pass before its moment is noted, so that it is due again at once and the
next pass ends in its slot too. What stands behind it is not reached as long as it is there.

* `Pass.Course.broken_of_fails`: a pass does not get beyond the first task that is due and fails;
* `Pass.Course.called_of_clear`: it gets to every task that is due and has none of these before it;
* `PoolHistory.called_iff_none_fails_before`: the tasks that are called however many passes are made
  are those that none stands before that is due and fails, and these are called by the first pass;
* `PoolHistory.exists_starved`: there is a task that is due all the time and never called.
-/

namespace Aquarium

variable {κ σ : Type} {capacity : Nat} {call : Caller κ σ} {fails : κ → Bool} {now known : Int}
  {world : σ}

/-! ## 1. What fails -/

/-- The task has a callback that fails. -/
def PoolTask.failsBy (fails : κ → Bool) (t : PoolTask κ) : Bool := t.callback.any fails

/-- These callbacks fail, whatever the world is like, and the others return. -/
def FailsBy (call : Caller κ σ) (fails : κ → Bool) : Prop :=
  ∀ callback world, (call callback world).2.isSome = fails callback

theorem FailsBy.run (h : FailsBy call fails) (p : Posted κ) (world : σ) :
    (p.run call world).2.isSome = p.task.failsBy fails := by
  unfold Posted.run PoolTask.failsBy
  cases p.task.callback with
  | none => rfl
  | some callback => exact h callback world

theorem FailsBy.returns_of_callAll (h : FailsBy call fails) {ps : List (Posted κ)}
    {world world' : σ} (hall : callAll call ps world = ⟨ps, world', none⟩) :
    ∀ p ∈ ps, p.task.failsBy fails = false := by
  induction ps generalizing world with
  | nil => nofun
  | cons p ps ih =>
      obtain ⟨world₁, hrun, hrest⟩ := exists_of_callAll_cons hall
      intro q hq
      rcases List.mem_cons.mp hq with rfl | hq
      · rw [← h.run q world, hrun]
        rfl
      · exact ih hrest q hq

/-! ## 2. One pass -/

namespace Pass

variable {cells : List (Option (Posted κ))} {done : Pass κ σ} {i : Nat} {p : Posted κ}

theorem mem_due (hp : cells[i]? = some (some p)) (hdue : p.task.isDue now = true) :
    p ∈ due now cells :=
  List.mem_filter.mpr ⟨List.mem_filterMap.mpr ⟨some p, List.mem_of_getElem? hp, rfl⟩, hdue⟩

/-- **A pass does not get beyond a task that is due and fails.** -/
theorem Course.broken_of_fails (hfails : FailsBy call fails)
    (h : Course call now known cells world done) (hp : cells[i]? = some (some p))
    (hdue : p.task.isDue now = true) (hfail : p.task.failsBy fails = true) :
    ∃ front q back, cells = front ++ some q :: back ∧ front.length ≤ i ∧
      done.cells = front.map (·.bind (Posted.after now)) ++ some q :: back ∧
      (callAll call (due now cells) world).called = due now front ++ [q] := by
  cases h with
  | whole hall =>
      have hreturns := hfails.returns_of_callAll hall p (mem_due hp hdue)
      rw [hfail] at hreturns
      cases hreturns
  | broken hcells hfront hdue' hfail' =>
      rename_i front back q world₁ world' fault
      refine ⟨front, q, back, hcells, ?_, rfl, ?_⟩
      · -- otherwise it would have been called before
        by_contra hlt
        rw [hcells, List.getElem?_append_left (by omega)] at hp
        have hreturns := hfails.returns_of_callAll hfront p (mem_due hp hdue)
        rw [hfail] at hreturns
        cases hreturns
      · rw [hcells, callAll_of_broken hfront hdue' hfail']

/-- **A pass gets to a task that is due** unless one before it is due and fails. -/
theorem Course.called_of_clear (hfails : FailsBy call fails)
    (h : Course call now known cells world done) (hp : cells[i]? = some (some p))
    (hdue : p.task.isDue now = true) (hreturns : p.task.failsBy fails = false)
    (hclear : ∀ j < i, ∀ q, cells[j]? = some (some q) → q.task.isDue now = true →
      q.task.failsBy fails = false) :
    p ∈ (callAll call (due now cells) world).called := by
  cases h with
  | whole hall =>
      rw [hall]
      exact mem_due hp hdue
  | broken hcells hfront hdue' hfail' =>
      rename_i front back q world₁ world' fault
      have hq : q.task.failsBy fails = true := by
        rw [← hfails.run q world₁, hfail']
        rfl
      have hat : cells[front.length]? = some (some q) := by
        rw [hcells, List.getElem?_append_right (Nat.le_refl _), Nat.sub_self,
          List.getElem?_cons_zero]
      have hbefore : i < front.length := by
        rcases Nat.lt_trichotomy front.length i with hlt | heq | hlt
        · rw [hclear front.length hlt q hat hdue'] at hq
          cases hq
        · rw [heq, hp] at hat
          cases hat
          rw [hreturns] at hq
          cases hq
        · exact hlt
      rw [hcells, callAll_of_broken hfront hdue' hfail']
      rw [hcells, List.getElem?_append_left hbefore] at hp
      exact List.mem_append_left _ (mem_due hp hdue)

end Pass

namespace TaskPool

variable {pool : TaskPool κ capacity} {i j : Nat} {p q : Posted κ}

/-- From a task on that is due and fails, a pass leaves every slot as it is. -/
theorem get?_pass_of_fails (hfails : FailsBy call fails) (hq : pool.tasks.get? j = some q)
    (hdue : q.task.isDue now = true) (hfail : q.task.failsBy fails = true) (hji : j ≤ i) :
    (pool.pass call now world).1.tasks.get? i = pool.tasks.get? i := by
  obtain ⟨front, r, back, hcells, hle, hdone, -⟩ :=
    (pool.course_pass call now world).broken_of_fails hfails (Option.join_eq_some_iff.mp hq)
      hdue hfail
  show (Option.join (Pass.cells _)[i]?) = Option.join pool.tasks.cells[i]?
  rw [hdone, hcells, List.getElem?_append_right (by rw [List.length_map]; omega),
    List.getElem?_append_right (by omega), List.length_map]

/-- What stands behind a task that is due and fails is not called. -/
theorem not_called_of_fails (hfails : FailsBy call fails)
    (hdistinct : (pool.toList.map Posted.id).Nodup) (hq : pool.tasks.get? j = some q)
    (hdue : q.task.isDue now = true) (hfail : q.task.failsBy fails = true) (hji : j < i)
    (hp : pool.tasks.get? i = some p) :
    ∀ r ∈ (callAll call (pool.due now) world).called, r.id ≠ p.id := by
  obtain ⟨front, t, back, hcells, hle, -, hcalled⟩ :=
    (pool.course_pass call now world).broken_of_fails hfails (Option.join_eq_some_iff.mp hq)
      hdue hfail
  have hback : p ∈ back.filterMap id := by
    have hcell := Option.join_eq_some_iff.mp hp
    rw [hcells, List.getElem?_append_right (by omega)] at hcell
    obtain ⟨k, hk⟩ : ∃ k, i - front.length = k + 1 := ⟨i - front.length - 1, by omega⟩
    rw [hk, List.getElem?_cons_succ] at hcell
    exact List.mem_filterMap.mpr ⟨some p, List.mem_of_getElem? hcell, rfl⟩
  have hsplit : pool.toList = (front ++ [some t]).filterMap id ++ back.filterMap id := by
    show pool.tasks.cells.filterMap id = _
    rw [hcells, ← List.filterMap_append, List.append_assoc]
    rfl
  intro r hr hid
  have hfront : r ∈ (front ++ [some t]).filterMap id := by
    have hr' : r ∈ Pass.due now front ++ [t] := hcalled ▸ hr
    rw [List.filterMap_append]
    rcases List.mem_append.mp hr' with hr' | hr'
    · exact List.mem_append_left _ (List.mem_filter.mp hr').1
    · exact List.mem_append_right _ hr'
  rw [hsplit, List.map_append] at hdistinct
  have happart := (List.nodup_append.mp hdistinct).2.2
  exact happart _ (List.mem_map_of_mem hfront) _ (List.mem_map_of_mem hback) hid

end TaskPool

namespace PoolHistory

variable {s : PoolHistory κ σ capacity} {i j : Nat} {p q : Posted κ}

/-! ## 3. One pass after another -/

theorem calls_pass_of_forall
    (h : ∀ r ∈ (callAll call (s.pool.due now) s.world).called, r.id ≠ p.id) :
    (s.meet call (.pass now)).calls p.id = s.calls p.id := by
  show (PoolRecord.ran now _).moments p.id ++ s.calls p.id = s.calls p.id
  rw [moments_ran_of_forall h]
  rfl

/-- **However many passes are made, nothing is called that stands behind a task that is due and
fails.** -/
theorem calls_after_passes_of_fails (hfails : FailsBy call fails)
    (hdistinct : (s.pool.toList.map Posted.id).Nodup) (hq : s.pool.tasks.get? j = some q)
    (hdue : q.task.isDue now = true) (hfail : q.task.failsBy fails = true) (hji : j < i)
    (hp : s.pool.tasks.get? i = some p) {moments : List Int} (hlater : ∀ t ∈ moments, now ≤ t) :
    (s.after call (moments.map .pass)).calls p.id = s.calls p.id := by
  induction moments generalizing s with
  | nil => rfl
  | cons t moments ih =>
      obtain ⟨hfirst, hrest⟩ := List.forall_mem_cons.mp hlater
      have hdue_t := PoolTask.isDue_of_le hdue hfirst
      have hstays : ∀ k, j ≤ k →
          (s.meet call (.pass t)).pool.tasks.get? k = s.pool.tasks.get? k :=
        fun k hk => TaskPool.get?_pass_of_fails hfails hq hdue_t hfail hk
      have hnext := ih (s := s.meet call (.pass t))
        (hdistinct.sublist (s.pool.ids_pass_sublist call t s.world))
        ((hstays j (Nat.le_refl j)).trans hq) ((hstays i (Nat.le_of_lt hji)).trans hp) hrest
      refine hnext.trans (calls_pass_of_forall ?_)
      exact TaskPool.not_called_of_fails hfails hdistinct hq hdue_t hfail hji hp

theorem calls_after_ne_nil {id : Nat} (h : s.calls id ≠ []) (events : List (PoolEvent κ)) :
    (s.after call events).calls id ≠ [] := by
  have hsuffix : s.records <:+ (s.after call events).records := s.records_suffix_after events
  obtain ⟨front, hrecords⟩ := hsuffix
  unfold calls at h ⊢
  rw [← hrecords, List.flatMap_append]
  exact List.append_ne_nil_of_right_ne_nil _ h

/-- **However many passes are made from a moment on, a task that is due then and returns is called
exactly if no task before it is due then and fails.** The first pass calls it, or none does. -/
theorem called_iff_none_fails_before (hfails : FailsBy call fails) (pool : TaskPool κ capacity)
    (world : σ) (hdistinct : (pool.toList.map Posted.id).Nodup)
    (hp : pool.tasks.get? i = some p) (hdue : p.task.isDue now = true)
    (hreturns : p.task.failsBy fails = false) {later : List Int} (hlater : ∀ t ∈ later, now ≤ t) :
    ((⟨pool, world, []⟩ : PoolHistory κ σ capacity).after call
        ((now :: later).map .pass)).calls p.id ≠ [] ↔
      ∀ j < i, ∀ q, pool.tasks.get? j = some q → q.task.isDue now = true →
        q.task.failsBy fails = false := by
  constructor
  · intro hcalled j hji q hq hdue_q
    by_contra hfail
    have hnone := calls_after_passes_of_fails (s := ⟨pool, world, []⟩) hfails hdistinct hq hdue_q
      (Bool.not_eq_false _ ▸ hfail) hji hp (List.forall_mem_cons.mpr ⟨Int.le_refl now, hlater⟩)
    exact hcalled hnone
  · intro hclear
    have hin : p ∈ (callAll call (pool.due now) world).called :=
      (pool.course_pass call now world).called_of_clear hfails (Option.join_eq_some_iff.mp hp) hdue
        hreturns fun j hji q hq => hclear j hji q (Option.join_eq_some_iff.mpr hq)
    have hfirst : ((⟨pool, world, []⟩ : PoolHistory κ σ capacity).meet call (.pass now)).calls
        p.id ≠ [] := by
      have hcount := List.count_pos_iff.mpr (List.mem_map_of_mem (f := Posted.id) hin)
      show (PoolRecord.ran now _).moments p.id ++ [] ≠ []
      rw [List.append_nil]
      exact fun hnil => Nat.ne_of_gt hcount ((List.replicate_eq_nil_iff _).mp hnil)
    exact calls_after_ne_nil hfirst (later.map .pass)

/-- Three tasks that are due, the second of which fails: the first one is called, and the third one
is not, in four passes. -/
theorem called_iff_none_fails_before_of_three :
    let call : Caller Bool Unit := fun fails world =>
      (world, if fails then some (.callbackFailed "probe") else none)
    let pool : TaskPool Bool 3 := ((start .standard () : PoolHistory Bool Unit 3).after call
      [.post (.periodic "pump" 10 false), .post (.periodic "probe" 10 true),
        .post (.periodic "lamp" 10 false)]).pool
    let s : PoolHistory Bool Unit 3 := (⟨pool, (), []⟩ : PoolHistory Bool Unit 3).after call
      ([5, 5, 8, 30].map .pass)
    s.calls 1 = [30, 5] ∧ s.calls 3 = [] := by
  intro call pool s
  have hfails : FailsBy call id := by
    intro callback world
    cases callback <;> rfl
  have hdistinct : (pool.toList.map Posted.id).Nodup := by decide
  have hlamp : pool.tasks.get? 2 = some ⟨3, .periodic "lamp" 10 false⟩ := by decide
  have hdue : (PoolTask.periodic "lamp" 10 false).isDue 5 = true := by decide
  have hlater : ∀ t ∈ [5, 8, 30], (5 : Int) ≤ t := by decide
  have hthird := called_iff_none_fails_before hfails pool () hdistinct hlamp hdue (by decide) hlater
  refine ⟨by decide, ?_⟩
  by_contra hcalled
  have hprobe := hthird.mp hcalled 1 (by decide) ⟨2, .periodic "probe" 10 true⟩ (by decide)
    (by decide)
  cases hprobe

/-- **There is a task that is due all the time and never called**, in a table with two slots and
however many passes are made: the one before it fails each time. -/
theorem exists_starved :
    let call : Caller Bool Unit := fun fails world =>
      (world, if fails then some (.callbackFailed "probe") else none)
    let s : PoolHistory Bool Unit 2 := (start .standard ()).after call
      [.post (.periodic "probe" 10 true), .post (.periodic "lamp" 10 false)]
    FailsBy call id ∧ s.pool.tasks.get? 1 = some ⟨2, .periodic "lamp" 10 false⟩ ∧
      (PoolTask.periodic "lamp" 10 false).isDue 0 = true ∧
      ∀ moments : List Int, (∀ t ∈ moments, 0 ≤ t) →
        (s.after call (moments.map .pass)).calls 2 = [] := by
  intro call s
  have hfails : FailsBy call id := by
    intro callback world
    cases callback <;> rfl
  have hlamp : s.pool.tasks.get? 1 = some ⟨2, .periodic "lamp" 10 false⟩ := by decide
  have hprobe : s.pool.tasks.get? 0 = some ⟨1, .periodic "probe" 10 true⟩ := by decide
  refine ⟨hfails, hlamp, by decide, fun moments hmoments => ?_⟩
  have hsame := calls_after_passes_of_fails hfails (by decide) hprobe (by decide) (by decide)
    Nat.zero_lt_one hlamp hmoments
  rw [hsame]
  decide

end PoolHistory

end Aquarium
