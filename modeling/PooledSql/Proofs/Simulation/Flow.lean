import PooledSql.Proofs.Simulation.Ledger

/-!
# Flow

Every move changes the tokens outside by what its section takes and gives and by what comes into
being and goes with its events. This is where phases of tasks and sections of pools are compared.
-/

namespace PooledSql

open Machine

variable {m : Machine} {s s' : Scene} {id : TaskId} {task : Task} {site : Site} {phase : Phase}
variable {d : Deed}

/-- The tokens outside have changed by a deed. -/
def Flow (s : Scene) (d : Deed) (s' : Scene) : Prop := ∀ q : Tag → Bool,
  s'.outside.countP q + d.sinks.countP q + (d.takes s).countP q =
    s.outside.countP q + d.sources.countP q + (d.gives s).countP q

/-- A task goes on and no pool changes. -/
theorem flow_go {events : List Event} {evictors : List EvictorHandle} (hkeys : s.tasks.keys.Nodup)
    (htask : s.tasks.get? id = some task)
    (h : ∀ q, (phase.tokens task.pool).countP q + (events.flatMap Event.sinks).countP q =
      (task.phase.tokens task.pool).countP q + (events.flatMap Event.sources).countP q) :
    Flow s { events } ({ s with evictors }.go id phase) := by
  intro q
  have := h q
  have : ({ s with evictors }.go id phase).outside.countP q + task.tokens.countP q =
      s.outside.countP q + (phase.tokens task.pool).countP q :=
    Scene.countP_outside_go (s := { s with evictors }) hkeys htask phase q
  simp only [Deed.sinks, Deed.sources, Deed.takes, Deed.gives, Task.tokens, List.countP_nil] at *
  omega

/-- A task goes on with a section of a pool. -/
theorem flow_change {index : Nat} {x : Section Connection} {events : List Event}
    {p p' : Pool Connection} (hkeys : s.tasks.keys.Nodup) (htask : s.tasks.get? id = some task)
    (hp : s.pools[index]? = some p)
    (h : ∀ q, (phase.tokens task.pool).countP q + (events.flatMap Event.sinks).countP q +
        (tag index (x.takes p)).countP q =
      (task.phase.tokens task.pool).countP q + (events.flatMap Event.sources).countP q +
        (tag index (x.gives p)).countP q) :
    Flow s { change := some (index, x), events } ((s.put index p').go id phase) := by
  intro q
  have := h q
  have := Scene.countP_outside_go (s := s.put index p') hkeys htask phase q
  rw [Scene.outside_put] at this
  simp only [Deed.sinks, Deed.sources, Deed.takes, Deed.gives, Task.tokens, hp, Option.map_some,
    Option.getD_some] at *
  omega

@[simp] theorem tokens_afterWork (server : Server) (lease : Lease Connection) (job : Job)
    (pool : Nat) :
    (afterWork server lease job).tokens pool = tag lease.pool [.lease lease.item] := by
  obtain ⟨outcome, h | h⟩ := afterWork_cases server lease job <;> rw [h] <;> rfl

/-- What a lease is that a caller receives by hanging up. -/
theorem hangUp_eq_some {p : Pool Connection} {call : CallId} {lease : Lease Connection}
    (h : (p.hangUp call).1 = some lease) : lease ∈ p.unreceived := by
  have hlist := p.hangUp_fst call
  rw [h] at hlist
  cases hcall : p.calls.get? call with
  | none =>
      rw [hcall] at hlist
      cases hlist
  | some deferred =>
      rw [hcall] at hlist
      refine Registry.mem_gather hcall ?_
      rw [show deferred.unread = [lease] from hlist.symm]
      exact List.mem_singleton_self lease

/-- A task keeps the lease that it receives, and lets go of one with the same label. -/
theorem flow_keep {trace : List Deed} {label : String} {lease : Lease Connection}
    {p p' : Pool Connection} (hledger : Ledger trace s)
    (htask : s.tasks.get? id = some task) (hp : s.pools[task.pool]? = some p)
    (hnone : task.phase.tokens task.pool = []) (hhang : (p.hangUp id).1 = some lease)
    (hown : lease.pool = task.pool)
    (hnext : phase.tokens task.pool =
      ((s.leases.lookup label).map fun l => tag l.pool [.lease l.item]).getD []) :
    Flow s
      { change := some (task.pool, .hangUp id)
        events := [.answered task.pool id (.leased lease.mark)] }
      ({ s.put task.pool p' with
        leases := (label, lease) :: s.leases.filter (·.1 != label) }.go id phase) := by
  intro q
  have hgo := Scene.countP_outside_go (s := { s.put task.pool p' with
    leases := (label, lease) :: s.leases.filter (·.1 != label) }) hledger.tasks htask phase q
  have hkeep := Scene.countP_outside_keep hledger.labels label lease q
  have hgives : tag task.pool [.lease lease.item] = tag lease.pool [.lease lease.item] := by
    rw [hown]
  rw [Task.tokens, hnone, hnext] at hgo
  simp only [Deed.sinks, Deed.sources, Deed.takes, Deed.gives, hp, Section.takes, Section.gives,
    hhang, Option.map_some, Option.getD_some, Option.toList_some, List.map_cons, List.map_nil,
    hgives]
  exact hgo.trans hkeep

theorem Turn.flow {trace : List Deed} (hledger : Ledger trace m.scene)
    (h : Turn m id task site phase d s') (hphase : task.phase = phase)
    (htask : m.tasks.get? id = some task) (hsite : m.sites[task.pool]? = some site) :
    Flow m.scene d s' := by
  have hkeys : m.tasks.keys.Nodup := hledger.tasks
  have hp : m.scene.pools[task.pool]? = some site.pool := pools_of_site hsite
  have hid : site.pool.id = task.pool := (hledger.placed _ _ hp).id
  have hown : ∀ {lease}, (site.pool.hangUp id).1 = some lease → lease.pool = task.pool :=
    fun h => (hledger.placed _ _ hp).lender _ (.inr (hangUp_eq_some h))
  have hreceived : ∀ {lease}, (site.pool.receive id).1 = .message (.ok lease) →
      (site.pool.hangUp id).1 = some lease := by
    intro lease hlease
    simp only [Pool.hangUp, hlease]
  cases h with
  | wait => intro q; rfl
  | ask h => exact flow_change hkeys htask hp fun q => by rw [hphase]; rfl
  | refused h => exact flow_change hkeys htask hp fun q => by rw [hphase]; rfl
  | @keep phase next label lease hlooks h hnext =>
      refine flow_keep hledger htask hp (by rw [hphase, hlooks.tokens]) (hreceived h)
        (hown (hreceived h)) ?_
      change next.tokens task.pool =
        ((m.leases.lookup label).map fun l => tag l.pool [.lease l.item]).getD []
      rw [hnext]
      cases m.leases.lookup label <;> rfl
  | hold hlooks h =>
      have hhang := hreceived h
      apply flow_change hkeys htask hp
      intro q
      rw [hphase, hlooks.tokens]
      simp [Phase.tokens, Section.takes, Section.gives, hhang, hown hhang, tag, Event.sinks,
        Event.sources]
  | send hlooks h =>
      have hhang := hreceived h
      apply flow_change hkeys htask hp
      intro q
      rw [hphase, hlooks.tokens]
      simp [Phase.tokens, Section.takes, Section.gives, hhang, hown hhang, tag, Event.sinks,
        Event.sources]
  | unanswered hlooks h =>
      have hhang : (site.pool.hangUp id).1 = none := by
        obtain h | ⟨h, -⟩ := h <;> simp only [Pool.hangUp, h]
      apply flow_change hkeys htask hp
      intro q
      rw [hphase, hlooks.tokens]
      simp [Phase.tokens, Section.takes, Section.gives, hhang, tag, Event.sinks, Event.sources]
  | await => exact flow_go hkeys htask fun q => by rw [hphase]; rfl
  | timeout => exact flow_go hkeys htask fun q => by rw [hphase]; rfl
  | withdraw => exact flow_change hkeys htask hp fun q => by rw [hphase]; rfl
  | late => exact flow_go hkeys htask fun q => by rw [hphase]; rfl
  | worked hdue => exact flow_go hkeys htask fun q => by rw [hphase, tokens_afterWork]; rfl
  | giveBackForeign h => exact flow_go hkeys htask fun q => by rw [hphase]; rfl
  | giveBack hpool h =>
      apply flow_change hkeys htask hp
      intro q
      simp [hphase, Phase.tokens, Section.takes, Section.gives, hpool, h, hid, tag]
  | recycle hpool h =>
      apply flow_change hkeys htask hp
      intro q
      simp [hphase, Phase.tokens, Section.takes, Section.gives, hpool, h, hid, tag]; omega
  | giveBackRefused hpool h =>
      apply flow_change hkeys htask hp
      intro q
      simp [hphase, Phase.tokens, Section.takes, Section.gives, hpool, h, hid, tag]
  | discardForeign h => exact flow_go hkeys htask fun q => by rw [hphase]; rfl
  | discard hpool h =>
      apply flow_change hkeys htask hp
      intro q
      simp [hphase, Phase.tokens, Section.takes, Section.gives, hpool, h, hid, tag]; omega
  | discardRefused hpool h =>
      apply flow_change hkeys htask hp
      intro q
      simp [hphase, Phase.tokens, Section.takes, Section.gives, hpool, h, hid, tag]
  | letGo =>
      obtain ⟨p, hlender, -⟩ := hledger.loan_of_outside
        (Scene.mem_outside htask (by rw [Task.tokens, hphase]; exact List.mem_singleton_self _))
      rw [scene_reclaim, pool?_eq, hlender]
      apply flow_change hkeys htask hlender
      intro q
      simp [hphase, Phase.tokens, Section.takes, Section.gives, tag]
  | forget => exact flow_change hkeys htask hp fun q => by rw [hphase]; rfl
  | hangUp hnext =>
      apply flow_change hkeys htask hp
      intro q
      cases hhang : (site.pool.hangUp id).1 with
      | none => simp [hphase, hnext, hhang, Phase.tokens, Section.takes, Section.gives, tag]
      | some lease =>
          simp [hphase, hnext, hhang, hown hhang, Phase.tokens, Section.takes, Section.gives, tag]
  | create => exact flow_go hkeys htask fun q => by rw [hphase]; rfl
  | @created episode due made hmade =>
      apply flow_change hkeys htask hp
      intro q
      cases made with
      | none => simp [hphase, Phase.tokens, Section.takes, Section.gives, tag]
      | some c =>
          simp only [hphase, Phase.tokens, Section.takes, Section.gives, tag, Event.sinks,
            Event.sources, Token.map, List.countP_cons, Option.toList_some, List.map_cons,
            List.map_nil, List.flatMap_cons, List.flatMap_nil, List.append_nil, List.countP_nil]
          omega
  | validate => exact flow_go hkeys htask fun q => by rw [hphase]; rfl
  | validated hvalid =>
      apply flow_change hkeys htask hp
      intro q
      simp [hphase, Phase.tokens, Section.takes, Section.gives, tag]
  | destroy =>
      apply flow_go hkeys htask
      intro q
      simp [hphase, Phase.tokens, tag, Event.sinks, Event.sources, Token.map, List.countP_cons,
        Pooled.mark, Pooled.item]
  | destroyed succeeded =>
      apply flow_change hkeys htask hp
      intro q
      simp [hphase, Phase.tokens, Section.takes, Section.gives, tag]
  | evictLater => exact flow_go hkeys htask fun q => by rw [hphase]; rfl
  | evict => exact flow_change hkeys htask hp fun q => by rw [hphase]; rfl
  | aborted => exact flow_go hkeys htask fun q => by rw [hphase]; rfl
  | outlast => exact flow_change hkeys htask hp fun q => by rw [hphase]; rfl
  | drain => exact flow_change hkeys htask hp fun q => by rw [hphase]; rfl
  | drainQueue =>
      intro q
      simp [Deed.sinks, Deed.sources, Deed.takes, Deed.gives, hp, Section.takes, Section.gives]
  | queueDrained h => exact flow_change hkeys htask hp fun q => by rw [hphase]; rfl
  | loansDrained h => exact flow_go hkeys htask fun q => by rw [hphase]; rfl
  | takeEvictor => exact flow_go hkeys htask fun q => by rw [hphase]; rfl
  | leaveEvictor => exact flow_go hkeys htask fun q => by rw [hphase]; rfl
  | abort => exact flow_go hkeys htask fun q => by rw [hphase]; rfl
  | drained => exact flow_go hkeys htask fun q => by rw [hphase]; rfl
  | clear h => exact flow_go hkeys htask fun q => by rw [hphase]; rfl
  | sweep => exact flow_change hkeys htask hp fun q => by rw [hphase]; rfl
  | cleared h => exact flow_go hkeys htask fun q => by rw [hphase]; rfl
  | ready h => exact flow_go hkeys htask fun q => by rw [hphase]; rfl
  | finish =>
      intro q
      have hremove := Scene.countP_outside_remove (s := m.scene) hkeys htask q
      have hnone : task.tokens = [] := by rw [Task.tokens, hphase]; rfl
      rw [hnone] at hremove
      simpa [Deed.sinks, Deed.sources, Deed.takes, Deed.gives] using hremove

/-- What a task that an action starts takes with it. -/
theorem tokens_phase {action : Action Connection} (h : action.leases = []) (pool : Nat) :
    action.phase.tokens pool = tag pool action.tokens := by
  cases action with
  | deliver call lease => cases h
  | _ => rfl

/-- A task that is given up keeps a lease and nothing else, unless it waits for a destruction. -/
theorem tokens_unwind {phase : Phase} (hcalled : phase.isCalled = true)
    (hdestroy : ∀ x outcome, phase ≠ .destroy x outcome)
    (hdestruction : ∀ episode due limit outcome, phase ≠ .destruction episode due limit outcome)
    (pool : Nat) : phase.unwind.tokens pool = phase.tokens pool := by
  cases phase with
  | destroy x outcome => exact absurd rfl (hdestroy x outcome)
  | destruction episode due limit outcome =>
      exact absurd rfl (hdestruction episode due limit outcome)
  | forget | create | creation | validate | validation | evict =>
      exact absurd hcalled Bool.false_ne_true
  | _ => rfl

theorem flow_stop {trace : List Deed} (hledger : Ledger trace s)
    (htask : s.tasks.get? id = some task) (hstop : task.mayStop = true) :
    Flow s (stopDeed id task) { s with tasks := s.tasks.insert id { task with
      phase := task.phase.unwind, label := none, cancelled := false } } := by
  intro q
  have hinsert := Scene.countP_outside_insert hledger.tasks htask { task with
    phase := task.phase.unwind, label := none, cancelled := false } q
  rw [Task.mayStop, Bool.and_eq_true] at hstop
  have hcalled := hledger.called id task htask hstop.1
  rw [Task.tokens, Task.tokens] at hinsert
  cases hphase : task.phase with
  | destruction episode due limit outcome =>
      rw [hphase] at hinsert
      simp only [stopDeed, hphase, Deed.sinks, Deed.sources, Deed.takes, Deed.gives,
        Event.sinks, Event.sources, List.flatMap_cons, List.flatMap_nil, List.append_nil]
      exact hinsert
  | destroy x outcome =>
      rw [hphase] at hstop
      exact absurd hstop.2 Bool.false_ne_true
  | _ =>
      rw [tokens_unwind hcalled (by simp [hphase]) (by simp [hphase])] at hinsert
      simp only [stopDeed, hphase, Deed.sinks, Deed.sources, Deed.takes, Deed.gives,
        Event.sinks, Event.sources, List.flatMap_cons, List.flatMap_nil, List.append_nil,
        List.countP_nil] at *
      omega

theorem Act.flow {trace : List Deed} (hledger : Ledger trace m.scene) (h : Act m d s') :
    Flow m.scene d s' := by
  have hfresh : m.scene.nextTask ∉ m.scene.tasks.keys := fun hmem =>
    absurd (hledger.fresh _ hmem) (lt_irrefl _)
  cases h with
  | deliver hpool houtbox =>
      intro q
      rw [pool?_eq] at hpool
      simp only [Deed.takes, Deed.gives, hpool]
      rfl
  | @launch index pool before after action evictors hpool houtbox hleases hevictors =>
      intro q
      rw [pool?_eq] at hpool
      have hspawn := Scene.countP_outside_spawn
        (s := m.scene.put index (Section.run pool (.launch before action after))) hfresh
        ⟨index, none, action.phase, false⟩ q
      rw [Task.tokens, tokens_phase hleases, Scene.outside_put] at hspawn
      simp only [Deed.sinks, Deed.sources, Deed.takes, Deed.gives, hpool, List.flatMap_nil,
        List.countP_nil]
      exact hspawn
  | @abandon index pool before after action evictors hpool houtbox hleases hruntime hevictors =>
      intro q
      rw [pool?_eq] at hpool
      have hsources : (action.lost.map fun x => Event.lost index (x.1, x.2.number)).flatMap
          Event.sources = [] := by cases action <;> rfl
      have hsinks : (action.lost.map fun x => Event.lost index (x.1, x.2.number)).flatMap
          Event.sinks = tag index (action.lost.map .resource) := by cases action <;> rfl
      simp only [Deed.sinks, Deed.sources, Deed.takes, Deed.gives, hpool, hsources, hsinks]
      rfl
  | stop htask hstop => exact flow_stop hledger htask hstop
  | @begin task hphase hsite =>
      intro q
      have hspawn := Scene.countP_outside_spawn hfresh task q
      have hnone : task.tokens = [] := by
        rw [Task.tokens]
        cases htask : task.phase <;> rw [htask] at hphase <;>
          first | rfl | exact absurd hphase Bool.false_ne_true
      rw [hnone] at hspawn
      exact hspawn
  | @beginReturn label lease task hlease hphase hsite =>
      intro q
      have hspawn := Scene.countP_outside_spawn
        (s := { m.scene with leases := m.leases.filter (·.1 != label) }) hfresh task q
      have htake := Scene.countP_outside_take (s := m.scene) hledger.labels hlease q
      have htokens : task.tokens = tag lease.pool [.lease lease.item] := by
        obtain h | h := hphase <;> rw [Task.tokens, h] <;> rfl
      rw [htokens] at hspawn
      exact hspawn.trans htake
  | @drop label lease scene hlease hscene =>
      intro q
      have htake := Scene.countP_outside_take (s := m.scene) hledger.labels hlease q
      obtain ⟨p, hlender, -⟩ := hledger.loan_of_outside (Scene.mem_outside_of_lookup hlease)
      rw [pool?_eq, hlender] at hscene
      subst hscene
      simp only [Deed.sinks, Deed.sources, Deed.takes, Deed.gives, hlender]
      exact htake
  | start hpool | recycle recycling hpool =>
      intro q
      rw [pool?_eq] at hpool
      simp only [Deed.takes, Deed.gives, hpool]
      rfl
  | sicken label =>
      intro q
      have hleases : ∀ leases : List (String × Lease Connection),
          (leases.map fun entry => (entry.1, if entry.1 = label then
            { entry.2 with resource := { entry.2.resource with healthy := false } }
            else entry.2)).flatMap (fun entry => tag entry.2.pool [.lease entry.2.item]) =
          leases.flatMap fun entry => tag entry.2.pool [.lease entry.2.item] := by
        intro leases
        rw [List.flatMap_map]
        apply List.flatMap_congr
        intro entry _
        split <;> rfl
      simp only [Scene.outside, scene, hleases]
      rfl
  | @cancel id task htask =>
      intro q
      exact Nat.add_right_cancel (Scene.countP_outside_insert hledger.tasks htask
        { task with cancelled := true } q)
  | build config policy recycling => exact fun q => rfl
  | elapse => exact fun q => rfl

end PooledSql
