import PooledSql.Proofs.Simulation.Courses
import PooledSql.Proofs.Simulation.Recycling
import PooledSql.Proofs.Simulation.Serials

/-!
# Calls

A call of a database compiles its fragment, asks the pool for a connection, sends the statement over
it and gives the connection back or has it destroyed. How far a call has come is its `Stage`: by the
phase of its task one knows what it has sent, which is one statement at most. While the statement
runs nobody else has the connection; if it failed, nobody has it ever after.
-/

namespace PooledSql

open Machine

variable {m m' : Machine} {s' : Scene} {id : TaskId} {task task' : Task} {site : Site}
variable {phase phase' : Phase} {d : Deed} {trace : List Deed} {i : Nat} {o o' : Outcome}
variable {statement : CompiledQuery} {request : Request} {sent : List Event}
variable {l : Lease Connection} {before past later : List (Machine × Deed)}

/-! ## Connections in one place -/

/-- Nobody but the task has the connection of the pool. -/
structure Machine.HasAlone (m : Machine) (id : TaskId) (i c : Nat) : Prop where
  tasks : ∀ other task y, m.tasks.get? other = some task → other ≠ id →
    (i, y) ∈ task.phase.holdings task.pool → y.resource.2 ≠ c
  kept : ∀ entry ∈ m.leases, entry.2.pool = i → entry.2.resource.number ≠ c
  pool : ∀ p, m.pool? i = some p → ∀ y ∈ p.holdings, y.resource.2 ≠ c

namespace Machine

/-- What a task has, and what is elsewhere. -/
theorem perm_holdings (htask : m.tasks.get? id = some task) (i : Nat) : ∃ elsewhere,
      (m.holdings i).Perm
        (((task.phase.holdings task.pool).filter (·.1 == i)).map (·.2) ++ elsewhere) ∧
      (∀ other task y, m.tasks.get? other = some task → other ≠ id →
        (i, y) ∈ task.phase.holdings task.pool → y ∈ elsewhere) ∧
      (∀ entry ∈ m.leases, entry.2.pool = i → ⟨.lease, entry.2.mark⟩ ∈ elsewhere) ∧
      ∀ p, m.pool? i = some p → ∀ y ∈ p.holdings, y ∈ elsewhere := by
  obtain ⟨front, back, hentries⟩ := List.append_of_mem (Registry.mem_entries_of_get? htask)
  let others := (front ++ back).flatMap (fun entry => entry.2.phase.holdings entry.2.pool) ++
    m.leases.map fun entry => (entry.2.pool, ⟨.lease, entry.2.mark⟩)
  have hheld : m.held.Perm (task.phase.holdings task.pool ++ others) := by
    have hperm : m.tasks.entries.Perm ((id, task) :: (front ++ back)) :=
      hentries ▸ List.perm_middle
    have hflat := hperm.flatMap_right fun entry => entry.2.phase.holdings entry.2.pool
    rw [List.flatMap_cons] at hflat
    refine (hflat.append_right _).trans ?_
    rw [List.append_assoc]
  have hout : ∀ {y : Holding}, (i, y) ∈ others → y ∈ (others.filter (·.1 == i)).map (·.2) :=
    fun hy => List.mem_map.2 ⟨_, List.mem_filter.2 ⟨hy, beq_self_eq_true i⟩, rfl⟩
  refine ⟨((m.pool? i).map Pool.holdings).getD [] ++ (others.filter (·.1 == i)).map (·.2),
    ?_, fun other former y hother hne hy => ?_, fun entry hentry hpool => ?_, fun p hp y hy => ?_⟩
  · have hfilter := ((hheld.filter (·.1 == i)).map (·.2)).append_left
      (((m.pool? i).map Pool.holdings).getD [])
    rw [List.filter_append, List.map_append] at hfilter
    exact hfilter.trans (List.perm_append_comm_assoc _ _ _)
  · refine List.mem_append_right _ (hout (List.mem_append_left _ ?_))
    have hmem := Registry.mem_entries_of_get? hother
    rw [hentries, List.mem_append, List.mem_cons] at hmem
    refine List.mem_flatMap.2 ⟨(other, former), List.mem_append.2 ?_, hy⟩
    obtain hfront | heq | hback := hmem
    · exact .inl hfront
    · cases heq
      exact absurd rfl hne
    · exact .inr hback
  · refine List.mem_append_right _ (hout (List.mem_append_right _ ?_))
    exact List.mem_map.2 ⟨entry, hentry, by rw [hpool]⟩
  · rw [hp]
    exact List.mem_append_left _ hy

/-- A connection that a task has is in nobody else's hands. -/
theorem FreeRun.hasAlone (h : FreeRun trace m) (htask : m.tasks.get? id = some task)
    {y : Holding} (hy : (i, y) ∈ task.phase.holdings task.pool) :
    m.HasAlone id i y.resource.2 := by
  obtain ⟨elsewhere, hperm, htasks, hkept, hpool⟩ := perm_holdings htask i
  have hnodup := List.Nodup.of_append_left (h.nodup_connections i)
  rw [(hperm.map _).nodup_iff, List.map_append, List.nodup_append'] at hnodup
  have hown : y ∈ ((task.phase.holdings task.pool).filter (·.1 == i)).map (·.2) :=
    List.mem_map.2 ⟨_, List.mem_filter.2 ⟨hy, beq_self_eq_true i⟩, rfl⟩
  have hnot : ∀ x ∈ elsewhere, x.resource.2 ≠ y.resource.2 := fun x hx heq =>
    hnodup.2.2 (List.mem_map_of_mem hown) (heq ▸ List.mem_map_of_mem hx)
  exact ⟨fun other former x hother hne hx => hnot x (htasks other former x hother hne hx),
    fun entry hentry hi => hnot _ (hkept entry hentry hi),
    fun p hp x hx => hnot x (hpool p hp x hx)⟩

/-- A connection whose destruction has begun is nowhere. -/
theorem FreeRun.holding_ne_destroyed (h : FreeRun trace m) {x : Nat × Nat}
    (hx : x ∈ destroyed trace i) : ∀ y ∈ m.holdings i, y.resource.2 ≠ x.2 := by
  intro y hy heq
  have hdisjoint := (List.nodup_append'.1 (h.nodup_connections i)).2.2
  exact hdisjoint (List.mem_map_of_mem hy)
    (List.mem_append_left _ (List.mem_map.2 ⟨x, hx, heq.symm⟩))

end Machine

/-! ## Stages -/

/-- Nothing is left of the task's work but what leads to the outcome. -/
inductive Phase.Ends (o : Outcome) : Phase → Prop where
  | hangUp : Ends o (.hangUp o)
  | letGo (l : Lease Connection) : Ends o (.letGo l o)
  | destroy (x : Pooled Connection) : Ends o (.destroy x o)
  | destruction (episode : Episode) (due : Instant) (limit : Option Instant) :
      Ends o (.destruction episode due limit o)
  | finish : Ends o (.finish o)

/-- What a statement that was sent can come to. -/
inductive Request.Answer (request : Request) (statement : CompiledQuery) : Outcome → Prop where
  | replied (rows : List Row) : Answer request statement (.replied (request.reply statement rows))
  | failed (text : String) : Answer request statement (.failed (.connection text))

/-- What a call that sends a statement to a pool has sent when its outcome is settled. -/
inductive Concluded (i : Nat) (statement : CompiledQuery) (request : Request) :
    List Event → Outcome → Prop where
  /-- The pool has no connection for the call. -/
  | refused (e : PoolError) : Concluded i statement request [] (.failed (.pool e))
  | answered {o : Outcome} (c : Nat) (h : request.Answer statement o) :
      Concluded i statement request [.sent i c statement] o

/-- What the call has sent before its outcome is settled, or before the pool knows of that. -/
inductive Underway (i : Nat) (statement : CompiledQuery) (request : Request) :
    List Event → Phase → Prop where
  | ask (priority : Nat) : Underway i statement request [] (.ask priority (.run statement request))
  | await (handle : QueueHandle) (deadline : Option Instant) :
      Underway i statement request [] (.await handle deadline (.run statement request))
  | withdraw (handle : QueueHandle) (timeout : Duration) :
      Underway i statement request [] (.withdraw handle timeout (.run statement request))
  | lastLook (timeout : Duration) :
      Underway i statement request [] (.lastLook timeout (.run statement request))
  | work {l : Lease Connection} (due : Instant) (hlender : l.pool = i) :
      Underway i statement request [.sent i l.resource.number statement]
        (.work l due (.run statement request))
  | giveBack {l : Lease Connection} (rows : List Row) (hlender : l.pool = i) :
      Underway i statement request [.sent i l.resource.number statement]
        (.giveBack l (.replied (request.reply statement rows)))
  | discard {l : Lease Connection} (text : String) (hlender : l.pool = i) :
      Underway i statement request [.sent i l.resource.number statement]
        (.discard l (.failed (.connection text)))

/-- How far a call has come: what it has sent, and its phase. -/
def Stage (i : Nat) (statement : CompiledQuery) (request : Request) (sent : List Event)
    (phase : Phase) : Prop :=
  Underway i statement request sent phase ∨
    ∃ o, Concluded i statement request sent o ∧ phase.Ends o

theorem Stage.sent_once (h : Stage i statement request sent phase) :
    sent = [] ∨ ∃ c, sent = [.sent i c statement] := by
  obtain h | ⟨o, h, -⟩ := h
  · cases h with
    | ask | await | withdraw | lastLook => exact .inl rfl
    | work | giveBack | discard => exact .inr ⟨_, rfl⟩
  · cases h with
    | refused => exact .inl rfl
    | answered c => exact .inr ⟨c, rfl⟩

theorem Stage.concluded (h : Stage i statement request sent (.finish o)) :
    Concluded i statement request sent o := by
  obtain h | ⟨o', hconcluded, h⟩ := h
  · cases h
  · cases h
    exact hconcluded

/-- A task that has only to end goes on to its end and sends nothing. -/
theorem Turn.ends (h : Turn m id task site phase d s') (hends : phase.Ends o)
    (hphase : task.phase = phase) (htask : m.tasks.get? id = some task)
    (htask' : s'.tasks.get? id = some task') : task'.phase.Ends o ∧ d.sendings id = [] := by
  have hgone : ∀ {s : Scene} {next : Phase}, (s.go id next).tasks.get? id = some task' →
      task'.phase = next := Scene.phase_go
  cases h with
  | wait =>
      cases htask.symm.trans htask'
      exact ⟨hphase ▸ hends, rfl⟩
  | finish => cases Registry.get?_erase_self.symm.trans htask'
  | hangUp hnext =>
      cases hends
      rw [hgone htask', hnext]
      refine ⟨?_, rfl⟩
      split
      · exact .letGo _
      · exact .finish
  | letGo =>
      cases hends
      exact ⟨hgone htask' ▸ .finish, rfl⟩
  | destroy =>
      cases hends
      exact ⟨hgone htask' ▸ .destruction _ _ _, rfl⟩
  | destroyed =>
      cases hends
      exact ⟨hgone htask' ▸ .finish, rfl⟩
  | keep hlooks | hold hlooks | send hlooks | unanswered hlooks => cases hlooks <;> cases hends
  | _ => cases hends

/-- A turn takes a call that is under way to the next stage. -/
theorem Turn.of_underway (h : Turn m id task site phase d s')
    (hunder : Underway i statement request sent phase) (hpool : task.pool = i)
    (hid : site.pool.id = task.pool)
    (hready : ∀ x, d.change = some (task.pool, x) → x.Ready site.pool)
    (hlender : ∀ l ∈ site.pool.unreceived, l.pool = task.pool) (hphase : task.phase = phase)
    (htask : m.tasks.get? id = some task) (htask' : s'.tasks.get? id = some task') :
    Stage i statement request (sent ++ d.sendings id) task'.phase := by
  have hgone : ∀ {s : Scene} {next : Phase}, (s.go id next).tasks.get? id = some task' →
      task'.phase = next := Scene.phase_go
  have hforeign : ∀ {l : Lease Connection}, l.pool = i → l.pool = site.pool.id := fun hl =>
    hl.trans (hpool.symm.trans hid.symm)
  cases h with
  | wait =>
      cases htask.symm.trans htask'
      rw [hphase]
      exact (List.append_nil sent).symm ▸ .inl hunder
  | ask =>
      cases hunder
      exact .inl (hgone htask' ▸ .await _ _)
  | refused =>
      cases hunder
      rw [hgone htask']
      exact .inr ⟨_, .refused _, .finish⟩
  | keep hlooks | hold hlooks => cases hlooks <;> cases hunder
  | @send phase statement' request' lease hlooks hlease =>
      have hcame : (site.pool.hangUp id).1 = some lease := by simp only [Pool.hangUp, hlease]
      have hown : lease.pool = i := (hlender _ (hangUp_eq_some hcame)).trans hpool
      have hsends : Underway i statement' request'
          (if id = id then [Event.sent task.pool lease.resource.number statement'] else [])
          task'.phase := by
        rw [if_pos rfl, hpool, hgone htask']
        exact .work _ hown
      cases hlooks <;> cases hunder <;> exact .inl hsends
  | unanswered hlooks =>
      rw [hgone htask']
      cases hlooks <;> cases hunder <;> exact .inr ⟨_, .refused _, .finish⟩
  | await =>
      cases hunder
      exact .inl (hgone htask' ▸ .await _ _)
  | timeout =>
      cases hunder
      exact .inl (hgone htask' ▸ .withdraw _ _)
  | withdraw =>
      cases hunder
      exact .inl (hgone htask' ▸ .lastLook _)
  | late =>
      cases hunder
      rw [hgone htask']
      exact .inr ⟨_, .refused _, .hangUp⟩
  | worked =>
      obtain _ | _ | _ | _ | ⟨-, hown⟩ := hunder
      rw [hgone htask', afterWork]
      split
      · exact .inl (.giveBack _ hown)
      · exact .inl (.discard _ hown)
  | giveBackForeign hother | discardForeign hother =>
      cases hunder
      -- the lease came from this pool
      exact absurd (hforeign ‹_›) hother
  | giveBack =>
      cases hunder
      rw [hgone htask']
      exact .inr ⟨_, .answered _ (.replied _), .finish⟩
  | recycle =>
      cases hunder
      rw [hgone htask']
      exact .inr ⟨_, .answered _ (.replied _), .destroy _⟩
  | discard =>
      cases hunder
      rw [hgone htask']
      exact .inr ⟨_, .answered _ (.failed _), .destroy _⟩
  | giveBackRefused _ hrefused =>
      obtain ⟨x, hx⟩ := Pool.giveBack_ok (hready _ rfl) m.now m.sample
      cases (congrArg Prod.fst hrefused).symm.trans hx
  | discardRefused _ hrefused =>
      obtain ⟨x, hx⟩ := Pool.discard_ok (hready _ rfl)
      cases (congrArg Prod.fst hrefused).symm.trans hx
  | _ => cases hunder

/-- A turn of a call takes it to the next stage. -/
theorem Turn.stage (h : Turn m id task site phase d s')
    (hstage : Stage i statement request sent phase) (hpool : task.pool = i)
    (hid : site.pool.id = task.pool)
    (hready : ∀ x, d.change = some (task.pool, x) → x.Ready site.pool)
    (hlender : ∀ l ∈ site.pool.unreceived, l.pool = task.pool) (hphase : task.phase = phase)
    (htask : m.tasks.get? id = some task) (htask' : s'.tasks.get? id = some task') :
    Stage i statement request (sent ++ d.sendings id) task'.phase := by
  obtain hunder | ⟨o, hconcluded, hends⟩ := hstage
  · exact h.of_underway hunder hpool hid hready hlender hphase htask htask'
  · obtain ⟨hends', hnone⟩ := h.ends hends hphase htask htask'
    rw [hnone, List.append_nil]
    exact .inr ⟨o, hconcluded, hends'⟩

/-! ## Tasks that are given up -/

/-- The task has only to leave the queue or to let go of what it has. -/
def Phase.Leaves (phase : Phase) : Prop := (∃ handle, phase = .forget handle) ∨ phase.Ends .done

theorem Phase.leaves_unwind (phase : Phase) : phase.unwind.Leaves := by
  cases phase with
  | await handle | withdraw handle | forget handle => exact .inl ⟨handle, rfl⟩
  | lastLook | hangUp => exact .inr .hangUp
  | work l | giveBack l | discard l | letGo l => exact .inr (.letGo l)
  | _ => exact .inr .finish

theorem Turn.leaves (h : Turn m id task site phase d s') (hleaves : phase.Leaves)
    (hphase : task.phase = phase) (htask : m.tasks.get? id = some task)
    (htask' : s'.tasks.get? id = some task') : task'.phase.Leaves ∧ d.sendings id = [] := by
  obtain ⟨handle, rfl⟩ | hends := hleaves
  · cases h with
    | wait =>
        cases htask.symm.trans htask'
        exact ⟨.inl ⟨handle, hphase⟩, rfl⟩
    | forget => exact ⟨.inr (Scene.phase_go htask' ▸ .hangUp), rfl⟩
    | keep hlooks | hold hlooks | send hlooks | unanswered hlooks => cases hlooks
  · exact (h.ends hends hphase htask htask').imp_left .inr

/-- A task that sends a statement goes on. -/
theorem Turn.exists_of_sends (h : Turn m id task site phase d s')
    (htask : m.tasks.get? id = some task) :
    d.sendings id = [] ∨ ∃ task', s'.tasks.get? id = some task' := by
  cases h with
  | send => exact .inr ⟨_, Scene.get?_go_self htask _⟩
  | @created episode due made => cases made <;> exact .inl rfl
  | _ => exact .inl rfl

/-! ## Calls in a course -/

/-- The task is at a stage of the call that fits what it has sent, or it was given up and leaves. -/
structure Task.OnCall (task : Task) (i : Nat) (statement : CompiledQuery) (request : Request)
    (sent : List Event) : Prop where
  pool : task.pool = i
  stage : task.label.isSome = true → Stage i statement request sent task.phase
  leaves : task.label = none → task.phase.Leaves

namespace Machine

/-- The call has begun and has sent its statement once at most; its task, while it is there, is at
the stage that fits that. -/
structure OnCall (m : Machine) (id : TaskId) (i : Nat) (statement : CompiledQuery)
    (request : Request) (sent : List Event) : Prop where
  begun : id < m.nextTask
  once : sent = [] ∨ ∃ c, sent = [.sent i c statement]
  task : ∀ task, m.tasks.get? id = some task → task.OnCall i statement request sent

/-- The next part of the call's work. -/
theorem OnCall.turn (h : m.OnCall id i statement request sent) (hrun : FreeRun trace m)
    (hmove : Move m d m') (htask : m.tasks.get? id = some task)
    (hsite : m.sites[task.pool]? = some site)
    (hturn : Turn m id task site task.phase d m'.scene) :
    m'.OnCall id i statement request (sent ++ d.sendings id) := by
  have hbegun := h.begun.trans_le (hmove.nextTask_le hrun.ledger.toOrderly)
  have hcall := h.task task htask
  cases htask' : m'.tasks.get? id with
  | none =>
      have hnone : d.sendings id = [] := by
        obtain hnone | ⟨task', hthere⟩ := hturn.exists_of_sends htask
        · exact hnone
        · cases htask'.symm.trans hthere
      rw [hnone, List.append_nil]
      refine ⟨hbegun, h.once, fun task' hthere => ?_⟩
      cases htask'.symm.trans hthere
  | some task' =>
      obtain ⟨next, rfl, -⟩ := hturn.self rfl htask htask'
      have hp := pools_of_site hsite
      have hplaced := hrun.ledger.placed _ _ hp
      suffices hnext : (sent ++ d.sendings id = [] ∨
          ∃ c, sent ++ d.sendings id = [.sent i c statement]) ∧
          ({ task with phase := next } : Task).OnCall i statement request
            (sent ++ d.sendings id) by
        refine ⟨hbegun, hnext.1, fun task' hthere => ?_⟩
        cases htask'.symm.trans hthere
        exact hnext.2
      cases hlabel : task.label with
      | none =>
          obtain ⟨hleaves, hnone⟩ := hturn.leaves (hcall.leaves hlabel) rfl htask htask'
          rw [hnone, List.append_nil]
          exact ⟨h.once, hcall.pool, fun hsome => absurd hsome Bool.false_ne_true, fun _ => hleaves⟩
      | some label =>
          have hstage := hturn.stage (hcall.stage (by rw [hlabel]; rfl)) hcall.pool hplaced.id
            (fun x hchange => hrun.ledger.ready_of_move hmove _ x hchange _ hp)
            (fun l hl => hplaced.lender l (.inr hl)) rfl htask htask'
          exact ⟨hstage.sent_once, hcall.pool, fun _ => hstage,
            fun hnone => absurd hnone (Option.some_ne_none label)⟩

theorem OnCall.move (h : m.OnCall id i statement request sent) (hrun : FreeRun trace m)
    (hmove : Move m d m') : m'.OnCall id i statement request (sent ++ d.sendings id) := by
  have hs := hrun.ledger.toOrderly
  have hbegun := h.begun.trans_le (hmove.nextTask_le hs)
  cases htask : m.tasks.get? id with
  | none =>
      rw [hmove.sendings_of_none htask, List.append_nil]
      refine ⟨hbegun, h.once, fun task' hthere => ?_⟩
      cases (hmove.get?_eq_none hs h.begun htask).symm.trans hthere
  | some task =>
      have hcall := h.task task htask
      obtain ⟨site, hsite, hturn⟩ | ⟨hnone, hthere⟩ := hmove.of_task hs htask
      · exact h.turn hrun hmove htask hsite hturn
      · rw [hnone, List.append_nil]
        refine ⟨hbegun, h.once, fun task' htask' => ?_⟩
        obtain ⟨cancelled, hthere⟩ | ⟨-, -, hthere⟩ := hthere <;>
          cases hthere.symm.trans htask'
        · exact ⟨hcall.pool, hcall.stage, hcall.leaves⟩
        · exact ⟨hcall.pool, fun hsome => absurd hsome Bool.false_ne_true,
            fun _ => task.phase.leaves_unwind⟩

/-- A call stays on its way through a course. -/
theorem Course.onCall (h : Course m past m') (hbefore : Annals before m)
    (hcall : m.OnCall id i statement request []) :
    m'.OnCall id i statement request (sendings id past) := by
  refine h.invariant (J := fun past m => m.OnCall id i statement request (sendings id past))
    hbefore hcall (fun hannals hmove _ ih => ?_) fun ih => ⟨ih.begun, ih.once, ih.task⟩
  rw [sendings_concat]
  exact ih.move hannals.free hmove

end Machine

end PooledSql
