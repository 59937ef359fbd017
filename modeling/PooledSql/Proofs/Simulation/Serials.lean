import PooledSql.Proofs.Simulation.Ownership

/-!
# Numbers of connections

A factory counts the connections that it makes and gives each of them the next number. Nothing else
changes the count, so no two connections of a pool have the same number, and a connection is told
by its number alone.
-/

namespace PooledSql

open Machine

variable {m m' : Machine} {id : TaskId} {task : Task} {site : Site} {d : Deed}
variable {trace : List Deed} {i : Nat}

namespace Machine

/-- How many connections there have been at each site. -/
def counts (m : Machine) : List Nat := m.sites.map (·.factory.made)

theorem counts_of_site (h : m.sites[i]? = some site) : m.counts[i]? = some site.factory.made := by
  simp [counts, h]

/-! ## What leaves the counts alone -/

@[simp] theorem counts_wake (m : Machine) (tasks : List TaskId) :
    (m.wake tasks).counts = m.counts := rfl
@[simp] theorem counts_suspend (m : Machine) : m.suspend.counts = m.counts := rfl
@[simp] theorem counts_disarm (m : Machine) (id : TaskId) : (m.disarm id).counts = m.counts := rfl
@[simp] theorem counts_nextSample (m : Machine) : m.nextSample.counts = m.counts := rfl
@[simp] theorem counts_log (m : Machine) (log : Log) : { m with log }.counts = m.counts := rfl
@[simp] theorem counts_leases (m : Machine) (leases : List (String × Lease Connection)) :
    { m with leases }.counts = m.counts := rfl
@[simp] theorem counts_settle (m : Machine) (id : TaskId) (label : String) (outcome : Outcome) :
    (m.settle id label outcome).counts = m.counts := rfl
@[simp] theorem counts_spawn (m : Machine) (task : Task) : (m.spawn task).counts = m.counts := rfl

@[simp] theorem counts_arm (m : Machine) (id : TaskId) (due : Instant) :
    (m.arm id due).counts = m.counts := by
  rw [arm]
  split <;> rfl

@[simp] theorem counts_proceed (m : Machine) (id : TaskId) (phase : Phase) :
    (m.proceed id phase).counts = m.counts := by
  rw [proceed]
  split <;> rfl

@[simp] theorem counts_remove (m : Machine) (id : TaskId) : (m.remove id).counts = m.counts := by
  simp only [counts, remove, List.map_map]
  rfl

@[simp] theorem counts_conclude (m : Machine) (id : TaskId) (task : Task) (outcome : Outcome) :
    (m.conclude id task outcome).counts = m.counts := by
  rw [conclude]
  split <;> simp

@[simp] theorem counts_giveUp (m : Machine) (id : TaskId) (task : Task) :
    (m.giveUp id task).counts = m.counts := by
  simp only [counts, giveUp, List.map_map]
  rfl

theorem counts_modifySite {f : Site → Site}
    (h : ∀ site, (f site).factory.made = site.factory.made) :
    (m.modifySite i f).counts = m.counts :=
  map_modify_eq_map _ _ h _ _

@[simp] theorem counts_putPool (m : Machine) (i : Nat) (pool : Pool Connection) :
    (m.putPool i pool).counts = m.counts :=
  counts_modifySite fun _ => rfl

@[simp] theorem counts_commit (m : Machine) (i : Nat) (pool : Pool Connection) :
    (m.commit i pool).counts = m.counts :=
  counts_modifySite fun _ => rfl

@[simp] theorem counts_watch (m : Machine) (i : Nat) (id : TaskId) :
    (m.watch i id).counts = m.counts :=
  counts_modifySite fun _ => rfl

@[simp] theorem counts_evictor (m : Machine) (i : Nat) (evictor : EvictorHandle) :
    (m.modifySite i fun site => { site with evictor }).counts = m.counts :=
  counts_modifySite fun _ => rfl

@[simp] theorem counts_abortEvictor (m : Machine) (i : Nat) (evictor : TaskId) :
    (m.abortEvictor i evictor).counts = m.counts :=
  counts_evictor m i _

@[simp] theorem counts_reclaim (m : Machine) (lease : Lease Connection) :
    (m.reclaim lease).counts = m.counts := by
  rw [reclaim]
  split <;> simp

@[simp] theorem counts_deliver (m : Machine) (i : Nat) (pool : Pool Connection) (call : CallId)
    (lease : Lease Connection) : (m.deliver i pool call lease).counts = m.counts := by
  rw [deliver]
  split
  · dsimp only
    split <;> simp
  · simp

@[simp] theorem counts_launch (m : Machine) (i : Nat) (pool : Pool Connection)
    (action : Action Connection) (phase : Phase) :
    (m.launch i pool action phase).counts = m.counts := by
  rw [launch]
  split <;> simp

@[simp] theorem counts_perform (m : Machine) (i : Nat) (pool : Pool Connection)
    (action : Action Connection) : (m.perform i pool action).counts = m.counts := by
  cases action <;> simp [perform]

@[simp] theorem counts_takeAnswer (m : Machine) (id : TaskId) (task : Task)
    (pool : Pool Connection) (job : Job) (answer : Except PoolError (Lease Connection)) :
    (m.takeAnswer id task pool job answer).counts = m.counts := by
  cases answer with
  | error e => simp [takeAnswer]
  | ok lease =>
      cases job with
      | keep label =>
          simp only [takeAnswer, beginJob]
          split <;> simp
      | _ => simp [takeAnswer, beginJob]

theorem counts_set_factory (m : Machine) (i : Nat) (factory : Factory) :
    (m.putFactory i factory).counts = m.counts.set i factory.made :=
  map_modify_eq_set (fun site : Site => site.factory.made)
    (fun site : Site => { site with factory }) (fun _ => rfl) _ _

/-- A factory with the same count takes the place of another. -/
theorem counts_putFactory (hsite : m.sites[i]? = some site) {factory : Factory}
    (h : factory.made = site.factory.made) : (m.putFactory i factory).counts = m.counts := by
  obtain ⟨hi, hcount⟩ := List.getElem?_eq_some_iff.1 (counts_of_site hsite)
  rw [counts_set_factory, h, ← hcount, List.set_getElem_self]

/-! ## Moves -/

theorem counts_stepCaller (m : Machine) (id : TaskId) (task : Task) (pool : Pool Connection)
    (phase : Phase) : (m.stepCaller id task pool phase).counts = m.counts := by
  cases phase with
  | ask priority job =>
      simp only [stepCaller]
      split <;> simp
  | await handle deadline job =>
      simp only [stepCaller, awaitAnswer]
      split
      · simp
      · simp
      · split
        · simp
        · split
          · simp
          · split <;> simp
  | lastLook timeout job =>
      simp only [stepCaller]
      split <;> simp
  | work lease due job =>
      simp only [stepCaller]
      split <;> simp
  | giveBack lease outcome =>
      simp only [stepCaller]
      split
      · simp
      · split <;> simp
  | discard lease outcome =>
      simp only [stepCaller]
      split
      · simp
      · split <;> simp
  | hangUp outcome =>
      simp only [stepCaller]
      split <;> simp
  | _ => simp [stepCaller]

theorem counts_stepKeeper (m : Machine) (id : TaskId) (task : Task) (site : Site) (phase : Phase) :
    (m.stepKeeper id task site phase).counts = m.counts := by
  cases phase with
  | evict due =>
      simp only [stepKeeper]
      split
      · simp
      · split
        · simp
        · split <;> simp
  | drained evictor => cases evictor <;> simp [stepKeeper]
  | drainQueue | drainLoans | takeEvictor | clear | clearDestructions | ready =>
      simp only [stepKeeper]
      split <;> simp
  | _ => simp [stepKeeper]

theorem counts_stepFactory (hsite : m.sites[task.pool]? = some site) {phase : Phase}
    (hphase : ∀ episode due, phase ≠ .creation episode due) (id : TaskId) :
    (m.stepFactory id task site phase).counts = m.counts := by
  cases phase with
  | create =>
      simp only [stepFactory, counts_proceed, counts_arm]
      exact counts_putFactory hsite rfl
  | validate x =>
      simp only [stepFactory, counts_proceed, counts_arm]
      exact counts_putFactory hsite rfl
  | destroy x outcome =>
      simp only [stepFactory, counts_proceed]
      split
      · split <;> simp only [counts_arm] <;> exact counts_putFactory hsite rfl
      · simp only [counts_arm]
        exact counts_putFactory hsite rfl
  | creation episode due => exact absurd rfl (hphase episode due)
  | validation x episode due =>
      simp only [stepFactory]
      split <;> simp
  | destruction episode due limit outcome =>
      simp only [stepFactory]
      split
      · simp
      · split <;> simp
  | _ => simp [stepFactory]

theorem counts_stepTask (hsite : m.sites[task.pool]? = some site)
    (hphase : ∀ episode due, task.phase ≠ .creation episode due) (id : TaskId) :
    (m.stepTask id task site).counts = m.counts := by
  rw [stepTask]
  split
  · exact counts_conclude _ _ _ _
  all_goals first
    | exact counts_stepCaller _ _ _ _ _
    | exact counts_stepFactory hsite hphase id
    | exact counts_stepKeeper _ _ _ _ _

/-- A creation that ends well gives the next number. -/
theorem stepTask_creation {episode : Episode} {due : Instant}
    (hphase : task.phase = .creation episode due) (hsite : m.sites[task.pool]? = some site)
    (id : TaskId) :
    (m.deed id task site).events = [] ∧ (m.stepTask id task site).counts = m.counts ∨
      ∃ k, (m.deed id task site).events =
          [.created task.pool (k, site.factory.made + 1)] ∧
        (m.stepTask id task site).counts =
          m.counts.set task.pool (site.factory.made + 1) := by
  rw [deed, stepTask, hphase]
  simp only [stepFactory]
  by_cases hdue : due ≤ m.now
  · simp only [if_pos hdue, counts_proceed, counts_commit, Factory.make]
    cases episode.fails with
    | true =>
        refine .inl ⟨rfl, ?_⟩
        exact counts_putFactory hsite rfl
    | false =>
        refine .inr ⟨_, rfl, ?_⟩
        exact counts_set_factory _ _ _
  · simp only [if_neg hdue, counts_suspend]
    exact .inl ⟨trivial, trivial⟩

end Machine

theorem Turn.made_eq_nil {phase : Phase} {s' : Scene} (h : Turn m id task site phase d s')
    (hphase : ∀ episode due, phase ≠ .creation episode due) (i : Nat) :
    d.events.filterMap (Event.made? i) = [] := by
  cases h with
  | created => exact absurd rfl (hphase _ _)
  | _ => rfl

theorem Act.made_eq_nil {s' : Scene} (h : Act m d s') (i : Nat) :
    d.events.filterMap (Event.made? i) = [] := by
  cases h with
  | @abandon index pool before after action => cases action <;> rfl
  | stop =>
      rw [stopDeed]
      split <;> rfl
  | _ => rfl

namespace Machine

theorem sites_of_taskFor {rest : Machine} {command : Command}
    (h : m.taskFor command = some (task, rest)) : rest.sites = m.sites := by
  cases command with
  | release pool label | destroy pool label =>
      obtain ⟨⟨lease, m'⟩, htake, heq⟩ := Option.map_eq_some_iff.1 h
      obtain ⟨-, rfl⟩ := takeLease_eq_some htake
      cases heq
      rfl
  | drop | sicken | cancel | start | recycle => cases h
  | _ =>
      cases h
      rfl

/-- A move makes no connection and changes no count, or it makes one that gets the next number. -/
theorem Move.serial (h : Move m d m') :
    (∀ i, d.events.filterMap (Event.made? i) = []) ∧ (∃ more, m'.counts = m.counts ++ more) ∨
      ∃ j n k, m.counts[j]? = some n ∧ d.events = [.created j (k, n + 1)] ∧
        m'.counts = m.counts.set j (n + 1) := by
  have hsame : m'.counts = m.counts → ∃ more, m'.counts = m.counts ++ more :=
    fun heq => ⟨[], by rw [heq, List.append_nil]⟩
  cases h with
  | @part id task site htask hsite =>
      by_cases hcreation : ∃ episode due, task.phase = .creation episode due
      · obtain ⟨episode, due, hphase⟩ := hcreation
        obtain ⟨hevents, hcounts⟩ | ⟨k, hevents, hcounts⟩ := stepTask_creation hphase hsite id
        · exact .inl ⟨fun i => by rw [hevents]; rfl, hsame hcounts⟩
        · exact .inr ⟨task.pool, site.factory.made, k, counts_of_site hsite, hevents, hcounts⟩
      · have hphase : ∀ episode due, task.phase ≠ .creation episode due :=
          fun episode due heq => hcreation ⟨episode, due, heq⟩
        exact .inl ⟨(turn_part hsite).made_eq_nil hphase,
          hsame (counts_stepTask hsite hphase id)⟩
  | perform hsite houtbox =>
      exact .inl ⟨(act_perform hsite houtbox).made_eq_nil, hsame (counts_perform _ _ _ _)⟩
  | @stop id task htask hstop =>
      refine .inl ⟨fun i => ?_, hsame (counts_giveUp _ _ _)⟩
      rw [stopDeed]
      split <;> rfl
  | begin htask hsite =>
      refine .inl ⟨fun i => rfl, hsame ?_⟩
      rw [counts_spawn, counts, sites_of_taskFor htask, counts]
  | drop htake =>
      obtain ⟨-, rfl⟩ := takeLease_eq_some htake
      exact .inl ⟨fun i => rfl, hsame (counts_reclaim _ _)⟩
  | outlast =>
      refine .inl ⟨fun i => rfl, hsame ?_⟩
      rw [counts_proceed, counts_commit]
  | start hsite | recycle recycling hsite =>
      exact .inl ⟨fun i => rfl, hsame (counts_commit _ _ _)⟩
  | sicken label => exact .inl ⟨fun i => rfl, hsame rfl⟩
  | cancel label =>
      refine .inl ⟨fun i => rfl, hsame ?_⟩
      rw [act]
      split
      · split <;> rfl
      · rfl
  | build config policy recycling factory =>
      exact .inl ⟨fun i => rfl, [factory.made], List.map_append⟩
  | elapse h => exact .inl ⟨fun i => rfl, hsame h.made⟩

end Machine

/-! ## Runs -/

/-- No number of a connection is above the count of its factory, and none was given twice. -/
structure Machine.Serialized (trace : List Deed) (m : Machine) : Prop where
  le_count : ∀ i, ∀ x ∈ made trace i, ∃ n, m.counts[i]? = some n ∧ x.2 ≤ n
  nodup : ∀ i, ((made trace i).map (·.2)).Nodup

namespace Machine

theorem Serialized.keep (h : m.Serialized trace)
    (hnone : ∀ i, d.events.filterMap (Event.made? i) = [])
    (hcounts : ∃ more, m'.counts = m.counts ++ more) : m'.Serialized (trace ++ [d]) := by
  have hsame : ∀ i, made (trace ++ [d]) i = made trace i := fun i => by
    rw [made_append, hnone, List.append_nil]
  obtain ⟨more, hcounts⟩ := hcounts
  refine ⟨fun i x hx => ?_, fun i => ?_⟩
  · obtain ⟨n, hn, hle⟩ := h.le_count i x (hsame i ▸ hx)
    refine ⟨n, ?_, hle⟩
    rw [hcounts, List.getElem?_append_left (List.getElem?_eq_some_iff.1 hn).1, hn]
  · rw [hsame]
    exact h.nodup i

/-- A connection that is made has a number that is above all others. -/
theorem Serialized.make {j n k : Nat} (h : m.Serialized trace) (hcount : m.counts[j]? = some n)
    (hevents : d.events = [.created j (k, n + 1)])
    (hcounts : m'.counts = m.counts.set j (n + 1)) : m'.Serialized (trace ++ [d]) := by
  have hmade : made (trace ++ [d]) j = made trace j ++ [(k, n + 1)] := by
    simp [made_append, hevents, Event.made?]
  have hother : ∀ {i}, j ≠ i → made (trace ++ [d]) i = made trace i := fun hij => by
    simp [made_append, hevents, Event.made?, hij]
  have hle : ∀ x ∈ made trace j, x.2 ≤ n := fun x hx => by
    obtain ⟨n', hn', hle⟩ := h.le_count j x hx
    cases hcount.symm.trans hn'
    exact hle
  refine ⟨fun i x hx => ?_, fun i => ?_⟩
  · by_cases hij : j = i
    · subst hij
      refine ⟨n + 1, ?_, ?_⟩
      · rw [hcounts, List.getElem?_set_self (List.getElem?_eq_some_iff.1 hcount).1]
      · rw [hmade, List.mem_append, List.mem_singleton] at hx
        obtain hx | rfl := hx
        · exact Nat.le_succ_of_le (hle x hx)
        · exact le_rfl
    · rw [hcounts, List.getElem?_set_ne hij]
      exact h.le_count i x (hother hij ▸ hx)
  · by_cases hij : j = i
    · subst hij
      rw [hmade, List.map_append, List.nodup_append']
      refine ⟨h.nodup j, List.nodup_singleton _, ?_⟩
      rw [List.map_singleton, List.disjoint_singleton]
      intro hmem
      obtain ⟨x, hx, heq⟩ := List.mem_map.1 hmem
      exact absurd (heq.symm.trans_le (hle x hx)) (Nat.not_succ_le_self n)
    · rw [hother hij]
      exact h.nodup i

theorem FreeRun.serialized (h : FreeRun trace m) : m.Serialized trace := by
  induction h with
  | idle server => exact ⟨fun i x hx => absurd hx List.not_mem_nil, fun i => List.nodup_nil⟩
  | move h hmove ih =>
      obtain ⟨hnone, hcounts⟩ | ⟨j, n, k, hcount, hevents, hcounts⟩ := hmove.serial
      · exact ih.keep hnone hcounts
      · exact ih.make hcount hevents hcounts
  | switch h runtime now ih => exact ⟨ih.le_count, ih.nodup⟩

/-- No connection is in two places, or in one and among those that are gone. -/
theorem FreeRun.nodup_connections (h : FreeRun trace m) (i : Nat) :
    ((m.holdings i).map (·.resource.2) ++ ((destroyed trace i).map (·.2) ++
      (lost trace i).map (·.2))).Nodup := by
  have hnodup := ((h.perm_made i).map (·.2)).nodup_iff.2 (h.serialized.nodup i)
  rwa [List.map_append, List.map_append, List.map_map] at hnodup

end Machine

end PooledSql
