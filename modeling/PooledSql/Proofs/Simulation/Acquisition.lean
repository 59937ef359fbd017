import PooledSql.Proofs.Simulation.Verdicts

/-!
# Acquiring a lease

What is said here of the requests of a pool is said of every run inside a runtime. Whoever is
queued awaits the answer and is known by a handle that is still good. A call that was accepted has
one verdict or is open. Giving up a request takes it out of the queue and nothing else, and a lease
that was delivered goes to the caller or back to the pool.
-/

namespace PooledSql

open Machine

variable {m m' : Machine} {s s' : Scene} {id : TaskId} {task task' : Task} {site : Site}
variable {phase next : Phase} {d : Deed} {trace trace' : List Deed} {i : Nat}
variable {p p' : Pool Connection} {call : CallId} {lease : Lease Connection} {job : Job}
variable {handle : QueueHandle}

/-! ## The queue -/

/-- The handle that the task has of its request. -/
def Phase.handle? : Phase → Option QueueHandle
  | .await handle _ _ | .withdraw handle _ _ | .forget handle => some handle
  | _ => none

/-- The task of the call waits in the queue of the pool, and its handle means the call. -/
def Scene.Queues (s : Scene) (i : Nat) (p : Pool Connection) (call : CallId) : Prop :=
  ∃ task handle, s.tasks.get? call = some task ∧ task.pool = i ∧
    task.phase.handle? = some handle ∧ p.waiting.get? handle = some call

theorem Scene.Attends.queues (h : s.Attends) (hs : s.Orderly) (hp : s.pools[i]? = some p)
    (hcall : call ∈ p.waiting.toList) : s.Queues i p call := by
  obtain ⟨task, htask, hpool, hawaits⟩ :=
    hs.awaited i p hp call ((h.attended i p hp).mem_calls hcall)
  obtain ⟨q, hq, hstands⟩ := h.stands call task htask
  obtain rfl : p = q := Option.some_inj.1 (hp.symm.trans (hpool ▸ hq))
  cases hphase : task.phase <;> rw [hphase] at hstands hawaits <;>
    first | exact absurd hawaits Bool.false_ne_true | skip
  · exact ⟨task, _, htask, hpool, hphase ▸ rfl, Pool.Standing.get?_of_mem hstands hcall⟩
  · exact ⟨task, _, htask, hpool, hphase ▸ rfl, Pool.Standing.get?_of_mem hstands.2 hcall⟩
  · exact absurd hcall hstands.2.notMem_waiting
  · exact ⟨task, _, htask, hpool, hphase ▸ rfl, Pool.Standing.get?_of_mem hstands hcall⟩
  · exact absurd hcall hstands

/-- The request of a call is taken out of the queue if it is there; the others keep their order,
and nothing changes of the resources. -/
structure Pool.Drops (p : Pool Connection) (call : CallId) (p' : Pool Connection) : Prop where
  waiting : p'.waiting.toList = p.waiting.toList.erase call
  available : p'.available = p.available
  loans : p'.loans = p.loans
  absent : call ∉ p.waiting.toList → p' = p

namespace Pool

theorem Attended.drops_remove {waiting : PriorityQueue CallId} (h : p.Attended)
    (hk : p.waiting.get? handle = some call)
    (hremove : p.waiting.remove handle = some (call, waiting)) (hwaiting : p'.waiting = waiting)
    (havailable : p'.available = p.available) (hloans : p'.loans = p.loans) : p.Drops call p' where
  waiting := hwaiting ▸ h.toList_of_remove hremove
  available := havailable
  loans := hloans
  absent hnot := absurd (h.wf.mem_of_get? hk) hnot

theorem Standing.drops_refl (h : p.Standing call (some handle))
    (hk : p.waiting.get? handle = none) : p.Drops call p :=
  ⟨(List.erase_of_not_mem (h.notMem_of_none hk)).symm, rfl, rfl, fun _ => rfl⟩

theorem Attended.drops_forget (h : p.Attended) (hs : p.Standing call (some handle)) :
    p.Drops call (p.forget handle) := by
  obtain hk | hk := hs.get?
  · obtain ⟨waiting, hremove, heq⟩ := h.forget_eq hk
    rw [heq]
    exact h.drops_remove hk hremove rfl rfl rfl
  · rw [forget_of_none hk]
    exact hs.drops_refl hk

theorem Attended.drops_withdraw (h : p.Attended) (hs : p.Standing call (some handle))
    (timeout : Duration) : p.Drops call (p.withdraw handle timeout) := by
  obtain hk | hk := hs.get?
  · obtain ⟨waiting, hremove, heq⟩ := h.withdraw_eq hk timeout
    rw [heq]
    exact h.drops_remove hk hremove rfl rfl rfl
  · rw [withdraw_of_none hk]
    exact hs.drops_refl hk

end Pool

/-- The section takes a request out of the queue because nobody waits for it any longer. -/
def Section.leaves? : Section Connection → Option QueueHandle
  | .withdraw handle _ | .forget handle => some handle
  | _ => none

theorem Turn.drops (h : Turn m id task site phase d s') (hattended : site.pool.Attended)
    (hstands : phase.Stands site.pool id) {x : Section Connection}
    (hchange : d.change = some (i, x)) (hx : x.leaves? = some handle) :
    task.pool = i ∧ phase.handle? = some handle ∧ site.pool.Drops id (x.run site.pool) := by
  cases h with
  | withdraw =>
      cases hchange
      cases hx
      exact ⟨rfl, rfl, hattended.drops_withdraw hstands.2 _⟩
  | forget =>
      cases hchange
      cases hx
      exact ⟨rfl, rfl, hattended.drops_forget hstands⟩
  | _ => cases hchange <;> cases hx

theorem Act.leaves (h : Act m d s') {x : Section Connection} (hchange : d.change = some (i, x)) :
    x.leaves? = none := by
  have hact := h.isAct hchange
  cases x <;> first | rfl | cases hact

/-- Whatever request is given up, it is that of the task that does it. -/
theorem Machine.Move.drops (hs : m.scene.Attends) (h : Move m d m') {x : Section Connection}
    (hchange : d.change = some (i, x)) (hx : x.leaves? = some handle) (hp : m.pool? i = some p) :
    ∃ call task, m.tasks.get? call = some task ∧ task.pool = i ∧
      task.phase.handle? = some handle ∧ p.Drops call (d.run i p) := by
  obtain ⟨id, task, site, htask, hsite, hturn⟩ | hact := h.cases
  · have hpool := pool?_of_site hsite
    obtain ⟨rfl, hhandle, hdrops⟩ := hturn.drops
      (hs.attended _ _ ((pool?_eq _ _).symm.trans hpool)) (hs.stands_site htask hsite) hchange hx
    cases hpool.symm.trans hp
    exact ⟨id, task, htask, rfl, hhandle, Deed.run_of_change hchange _ ▸ hdrops⟩
  · cases (hact.leaves hchange).symm.trans hx

/-! ## Deliveries -/

/-- A lease leaves the outbox: its caller is pending and gets it, or it is put back. -/
inductive Pool.Delivers (p : Pool Connection) (now : Instant) (sample : Duration)
    (before : List (Action Connection)) (call : CallId) (lease : Lease Connection)
    (after : List (Action Connection)) : Pool Connection → Prop where
  | given (hpending : p.isPending call = true) : Delivers p now sample before call lease after
      { p with outbox := before ++ after, calls := p.calls.insert call (.given lease) }
  | back {calls : Registry (Deferred PoolError (Lease Connection))} {p' : Pool Connection}
      (hpending : p.isPending call = false)
      (hback : p' = ({ p with outbox := [], calls } : Pool Connection).reclaim now sample lease) :
      Delivers p now sample before call lease after
        { p' with outbox := p'.outbox ++ (before ++ after) }

theorem Pool.Attended.delivers (h : p.Attended) (now : Instant) (sample : Duration)
    (before : List (Action Connection)) (call : CallId) (lease : Lease Connection)
    (after : List (Action Connection)) : p.Delivers now sample before call lease after
      (Section.run p (.deliver now sample before call lease after)) := by
  rw [Section.run, Pool.deliver]
  cases hget : p.calls.get? call with
  | none =>
      have hpending : p.isPending call = false := by rw [Pool.isPending, hget]
      exact .back hpending rfl
  | some answer =>
      have hpending : p.isPending call = answer.isPending := Pool.isPending_of_get? hget
      obtain rfl | ⟨other, rfl⟩ | ⟨error, rfl⟩ := h.plain hget
      · exact .given hpending
      · exact .back hpending rfl
      · exact .back hpending rfl

/-! ## Leases that were delivered -/

/-- The pool has a lease for the call, which was not received. -/
def Scene.Delivered (s : Scene) (i : Nat) (call : CallId) (lease : Lease Connection) : Prop :=
  ∃ p, s.pools[i]? = some p ∧ p.calls.get? call = some (.given lease)

/-- The task is about to let go of the lease. -/
def Scene.LetsGo (s : Scene) (call : CallId) (lease : Lease Connection) : Prop :=
  ∃ task outcome, s.tasks.get? call = some task ∧ task.phase = .letGo lease outcome

/-- Looking for the answer, at the deadline as before, brings the lease. -/
theorem deed_of_given {site : Site} (hlooks : task.phase.Looks job)
    (hgiven : site.pool.calls.get? id = some (.given lease)) :
    m.deed id task site = answerDeed id task job (.ok lease) := by
  have hreceive : (site.pool.receive id).1 = .message (.ok lease) := Pool.receive_fst hgiven
  rw [deed]
  generalize task.phase = phase at hlooks
  cases hlooks <;> simp only [hreceive]

/-- The task of a turn takes the lease that was delivered to it, lets go of it, or leaves it. -/
theorem Turn.delivered (h : Turn m id task site phase d s') (hattended : site.pool.Attended)
    (hstands : phase.Stands site.pool id) (hawaits : phase.awaits = true)
    (htask : m.tasks.get? id = some task)
    (hgiven : site.pool.calls.get? id = some (.given lease)) :
    (d.run task.pool site.pool).calls.get? id = some (.given lease) ∨
      .answered task.pool id (.leased lease.mark) ∈ d.events ∨ s'.LetsGo id lease := by
  have hreceive : (site.pool.receive id).1 = .message (.ok lease) := Pool.receive_fst hgiven
  have hnone : ∀ {k : QueueHandle}, site.pool.Standing id (some k) →
      site.pool.waiting.get? k = none := fun hs => by
    refine hs.get?.resolve_left fun hk => ?_
    have hopen := hattended.pending id (hattended.wf.mem_of_get? hk)
    cases hopen.symm.trans hgiven
  cases h with
  | keep hlooks h | hold hlooks h | send hlooks h =>
      cases hreceive.symm.trans h
      exact .inr (.inl List.mem_cons_self)
  | unanswered hlooks h =>
      rw [hreceive] at h
      obtain h | ⟨h, -⟩ := h <;> cases h
  | late h => exact absurd hreceive (h _)
  | withdraw =>
      rw [Deed.run_of_change rfl, Section.run, Pool.withdraw_of_none (hnone hstands.2)]
      exact .inl hgiven
  | forget =>
      rw [Deed.run_of_change rfl, Section.run, Pool.forget_of_none (hnone hstands)]
      exact .inl hgiven
  | @hangUp outcome next hnext =>
      refine .inr (.inr ⟨{ task with phase := next }, outcome, ?_, ?_⟩)
      · rw [Scene.get?_go, if_pos rfl, show (m.scene.put _ _).tasks = m.tasks from rfl, htask]
        rfl
      · rw [hnext, Pool.hangUp, hreceive]
  | wait | await | timeout => exact .inl hgiven
  | _ => exact absurd hawaits Bool.false_ne_true

/-- A lease that is there for a call stays there until the caller takes it or lets go of it. -/
theorem Machine.Move.delivered (hrun : FreeRun trace m) (h : Move m d m')
    (hdelivered : m.scene.Delivered i call lease) : m'.scene.Delivered i call lease ∨
      .answered i call (.leased lease.mark) ∈ d.events ∨ m'.scene.LetsGo call lease := by
  have hledger := hrun.ledger
  have hs := hrun.attends
  obtain ⟨p, hp, hgiven⟩ := hdelivered
  have hp' := (pool?_eq _ _).symm.trans (h.pool? ((pool?_eq _ _).trans hp))
  obtain ⟨id, task, site, htask, hsite, hturn⟩ | hact := h.cases
  · by_cases hne : call = id
    · subst hne
      obtain ⟨former, hformer, rfl, hawaits⟩ :=
        hledger.awaited i p hp call (Registry.mem_keys_of_get? hgiven)
      cases htask.symm.trans hformer
      have hpool := pools_of_site hsite
      cases hpool.symm.trans hp
      exact (hturn.delivered (hs.attended _ _ hpool) (hs.stands_site htask hsite) hawaits htask
        hgiven).imp_left fun hgiven => ⟨_, hp', hgiven⟩
    · have hminds := hturn.minds hledger hs rfl htask hsite i p hp
      exact .inl ⟨_, hp', hminds.given (fun heq => hne (Option.some_inj.1 heq)) hgiven⟩
  · exact .inl ⟨_, hp', (hact.minds hledger hs i p hp).given nofun hgiven⟩

theorem Turn.letsGo {outcome : Outcome} (h : Turn m id task site (.letGo lease outcome) d s')
    (hphase : task.phase = .letGo lease outcome) (htask : m.tasks.get? id = some task) :
    s'.LetsGo id lease ∨ ∃ now sample, d.change = some (lease.pool, .reclaim now sample lease) := by
  cases h with
  | wait => exact .inl ⟨task, outcome, htask, hphase⟩
  | keep hlooks | hold hlooks | send hlooks | unanswered hlooks => cases hlooks
  | letGo => exact .inr ⟨_, _, rfl⟩

/-- A task that lets go of a lease goes on to do it until the lender takes it back. -/
theorem Machine.Move.letsGo (hs : m.scene.Orderly) (h : Move m d m')
    (hlets : m.scene.LetsGo call lease) : m'.scene.LetsGo call lease ∨
      ∃ now sample, d.change = some (lease.pool, .reclaim now sample lease) := by
  obtain ⟨task, outcome, htask, hphase⟩ := hlets
  obtain ⟨id, other, site, hother, -, hturn⟩ | hact := h.cases
  · by_cases hne : call = id
    · subst hne
      cases htask.symm.trans hother
      exact (hphase ▸ hturn).letsGo hphase htask
    · exact .inl ⟨task, outcome, (hturn.others hne).trans htask, hphase⟩
  · obtain ⟨task', htask', hsame | hunwind⟩ := hact.keeps hs htask
    · exact .inl ⟨task', outcome, htask', hsame.trans hphase⟩
    · rw [hphase] at hunwind
      exact .inl ⟨task', .done, htask', hunwind⟩

/-- What becomes of a lease that was delivered: it stays with a caller who awaits it, the caller
takes it, or it goes back to its pool. -/
inductive Fate (i : Nat) (call : CallId) (lease : Lease Connection) (trace : List Deed)
    (m : Machine) : Prop where
  | awaited (h : m.scene.Delivered i call lease)
  | taken (h : .answered i call (.leased lease.mark) ∈ happened trace)
  | leaving (h : m.scene.LetsGo call lease)
  | returned {now : Instant} {sample : Duration} {d : Deed} (hd : d ∈ trace)
      (h : d.change = some (i, .reclaim now sample lease))

theorem Fate.move (h : Fate i call lease trace m) (hlender : lease.pool = i)
    (hrun : Run trace' m) (hmove : Move m d m') : Fate i call lease (trace ++ [d]) m' := by
  cases h with
  | awaited h =>
      obtain h | hmem | h := hmove.delivered hrun.free h
      · exact .awaited h
      · exact .taken (by simp [happened, List.flatMap_append, hmem])
      · exact .leaving h
  | taken h =>
      refine .taken ?_
      rw [happened, List.flatMap_append]
      exact List.mem_append_left _ h
  | leaving h =>
      obtain h | ⟨now, sample, hchange⟩ := hmove.letsGo hrun.free.ledger.toOrderly h
      · exact .leaving h
      · exact .returned (List.mem_append_right _ (List.mem_singleton_self d)) (hlender ▸ hchange)
  | returned hd h => exact .returned (List.mem_append_left _ hd) h

theorem Fate.path (h : m.scene.Delivered i call lease) (hlender : lease.pool = i)
    (hrun : Run trace m) (hpath : Path m trace' m') : Fate i call lease trace' m' := by
  induction hpath with
  | stay => exact .awaited h
  | move hpath hmove ih => exact ih.move hlender (hrun.path hpath) hmove

/-- A lease that was delivered is one of the pool, which has it on loan. -/
theorem Machine.FreeRun.loan_of_given (h : FreeRun trace m) (hp : m.pool? i = some p)
    (hgiven : p.calls.get? call = some (.given lease)) :
    lease.pool = i ∧ lease.id ∈ p.loans.keys := by
  have hmem : lease ∈ p.unreceived :=
    Registry.mem_gather hgiven (List.mem_singleton_self lease)
  refine ⟨(h.ledger.placed i p ((pool?_eq _ _).symm.trans hp)).lender lease (.inr hmem), ?_⟩
  refine (h.perm_loans hp).mem_iff.2 (List.mem_map.2 ⟨⟨.lease, lease.mark⟩, ?_, rfl⟩)
  refine List.mem_filter.2 ⟨List.mem_append_left _ ?_, rfl⟩
  rw [hp, Option.map_some, Option.getD_some, Pool.holdings]
  exact List.mem_append_right _ (List.mem_append_right _ (List.mem_map_of_mem hmem))

/-! ## Runs -/

/-- What a move does to the requests of a pool, and to the leases that are meant for them. -/
structure Deed.Honours (i : Nat) (m : Machine) (p : Pool Connection) (d : Deed) (m' : Machine)
    (p' : Pool Connection) : Prop where
  /-- Only open requests have verdicts, for a reason. -/
  verdict : ∀ call v, .answered i call v ∈ d.events →
    m.scene.isOpen i call = true ∧ p.Settles call m'.scene v
  /-- When time is up or the caller has gone, the request of the task leaves the queue. -/
  leave : ∀ x handle, d.change = some (i, x) → x.leaves? = some handle →
    ∃ call task, m.tasks.get? call = some task ∧ task.pool = i ∧
      task.phase.handle? = some handle ∧ p.Drops call p'
  deliver : ∀ now sample before call lease after,
    d.change = some (i, .deliver now sample before call lease after) →
    p.Delivers now sample before call lease after p'

/-- What is true of a lease that was delivered to a call and not received yet. -/
structure Machine.Entrusts (i : Nat) (m : Machine) (p : Pool Connection) (call : CallId)
    (lease : Lease Connection) : Prop where
  lender : lease.pool = i
  loan : lease.id ∈ p.loans.keys
  awaited : m.scene.Awaits i call
  /-- Whenever the task looks for the answer it has the lease, also when its time is up. -/
  found : ∀ task site job, m.tasks.get? call = some task → m.sites[i]? = some site →
    task.phase.Looks job → m.deed call task site = answerDeed call task job (.ok lease)
  fate : ∀ trace' m', Path m trace' m' → Fate i call lease trace' m'

namespace Machine

theorem Move.honours (hs : m.scene.Attends) (h : Move m d m') (hp : m.pool? i = some p) :
    d.Honours i m p m' (d.run i p) where
  verdict := by
    intro call v hmem
    obtain ⟨hopen, q, hq, hsettles⟩ := h.verdict hs hmem
    cases hp.symm.trans hq
    exact ⟨hopen, hsettles⟩
  leave := by
    intro x handle hchange hx
    exact h.drops hs hchange hx hp
  deliver := by
    intro now sample before call lease after hchange
    rw [Deed.run_of_change hchange]
    have hattended := hs.attended i p ((pool?_eq _ _).symm.trans hp)
    exact hattended.delivers now sample before call lease after

theorem Run.entrusts (h : Run trace m) (hp : m.pool? i = some p)
    (hgiven : p.calls.get? call = some (.given lease)) : m.Entrusts i p call lease := by
  have hpool := (pool?_eq _ _).symm.trans hp
  obtain ⟨hlender, hloan⟩ := h.free.loan_of_given hp hgiven
  refine ⟨hlender, hloan, ?_, ?_, ?_⟩
  · exact h.free.ledger.awaited i p hpool call (Registry.mem_keys_of_get? hgiven)
  · intro task site job htask hsite hlooks
    cases hp.symm.trans (pool?_of_site hsite)
    exact deed_of_given hlooks hgiven
  · intro trace' m' hpath
    exact Fate.path ⟨p, hpool, hgiven⟩ hlender h hpath

end Machine

/-- Whoever is queued for a pool is pending and awaits the answer. A call that was accepted, which
happens once, has one verdict unless it is still open: a lease, the acquire timeout if there is
one, or that the caller has gone. A request that is given up leaves the queue and nothing else
changes; a lease that finds nobody is put back; one that was delivered is the verdict if the
caller still looks for it, and goes back if not. So every loan has its lease. -/
theorem acquire_settles_once (h : Run trace m) (hp : m.pool? i = some p) :
    p.waiting.toList.Nodup ∧
      (∀ call ∈ p.waiting.toList, p.isPending call = true ∧ m.scene.Queues i p call) ∧
      (∀ call, acceptances trace i call ≤ 1 ∧
        (verdicts trace i call).length + (m.scene.isOpen i call).toNat =
          acceptances trace i call ∧
        ∀ v ∈ verdicts trace i call, v.Lawful p.config) ∧
      (∀ d m', Move m d m' → ∃ p', m'.pool? i = some p' ∧ d.Honours i m p m' p') ∧
      (∀ call lease, p.calls.get? call = some (.given lease) → m.Entrusts i p call lease) ∧
      p.loans.keys.Perm (m.lent i) := by
  have hs := h.free.attends
  have hpool := (pool?_eq _ _).symm.trans hp
  have hattended := hs.attended i p hpool
  refine ⟨hattended.nodup, ?_, ?_, ?_, ?_, h.free.perm_loans hp⟩
  · intro call hcall
    exact ⟨hattended.isPending hcall, hs.queues h.free.ledger.toOrderly hpool hcall⟩
  · intro call
    refine ⟨h.free.acceptances_le_one i call, h.free.length_verdicts i call, ?_⟩
    intro v hv
    obtain ⟨q, hq, hlawful⟩ := h.free.lawful hv
    cases hp.symm.trans hq
    exact hlawful
  · intro d m' hmove
    exact ⟨d.run i p, hmove.pool? hp, hmove.honours hs hp⟩
  · intro call lease hgiven
    exact h.entrusts hp hgiven

/-- One connection for five callers: the first has it, time is up for the second and the third, the
fourth has gone and the last is queued. The lease comes back for the second before it has left the
queue. -/
def racedDeadline : List Deed × Machine :=
  scheduled [.build { max := 1, acquireTimeout := some 10 } {},
    .begin (.acquire 0 "a" 0), .part 0, .perform 0, .part 1, .part 1, .perform 0, .part 0,
    .begin (.acquire 0 "b" 0), .part 2, .part 2, .begin (.acquire 0 "c" 0), .part 3, .part 3,
    .begin (.acquire 0 "d" 0), .part 4, .stop 4, .part 4, .sleep 10,
    .begin (.acquire 0 "e" 0), .part 5, .part 3, .part 3, .part 3, .part 2,
    .begin (.release 0 "a"), .part 6, .perform 0]

theorem acquire_settles_once_racedDeadline : ∃ p lease, racedDeadline.2.pool? 0 = some p ∧
    p.waiting.toList = [5] ∧ racedDeadline.2.scene.Queues 0 p 5 ∧
    verdicts racedDeadline.1 0 3 = [.refused (.acquireTimeout 10)] ∧
    verdicts racedDeadline.1 0 4 = [.cancelled] ∧ racedDeadline.2.scene.isOpen 0 2 = true ∧
    p.calls.get? 2 = some (.given lease) ∧ racedDeadline.2.Entrusts 0 p 2 lease := by
  obtain ⟨p, lease, hp, hqueue, hgiven⟩ : ∃ p lease, racedDeadline.2.pool? 0 = some p ∧
      p.waiting.toList = [5] ∧ p.calls.get? 2 = some (.given lease) := ⟨_, _, rfl, rfl, rfl⟩
  obtain ⟨-, hqueued, -, -, hdelivered, -⟩ := acquire_settles_once (run_scheduled _) hp
  exact ⟨p, lease, hp, hqueue, (hqueued 5 (by simp [hqueue])).2, by decide, by decide, by decide,
    hgiven, hdelivered 2 lease hgiven⟩

end PooledSql
