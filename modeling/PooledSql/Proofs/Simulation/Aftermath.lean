import PooledSql.Proofs.Simulation.Calls

/-!
# After a statement

When its statement has failed, a call takes the connection out of the pool and has it destroyed, and
until that has begun nobody else has the connection; so nothing is sent over it any more. When the
statement has succeeded, the pool takes the connection back. A call whose fragment does not compile
ends at once.
-/

namespace PooledSql

open Machine

variable {m m' m₀ : Machine} {s' : Scene} {id : TaskId} {task task' : Task} {site : Site}
variable {phase : Phase} {d : Deed} {trace : List Deed} {i : Nat} {o : Outcome} {x : Nat × Nat}
variable {statement : CompiledQuery} {request : Request} {db : Database} {label : String}
variable {f : Fragment} {l : Lease Connection} {before past later : List (Machine × Deed)}

theorem Pool.discard_mark {p : Pool Connection} {y : Pooled Connection}
    (h : (p.discard l).1 = .ok y) : y.mark = l.mark := by
  rw [Pool.discard] at h
  split at h <;> cases h
  rfl

namespace Machine

/-! ## Calls that are over at once -/

/-- The call has an outcome, and only this is left of it. -/
structure IsOver (m : Machine) (id : TaskId) (o : Outcome) : Prop where
  begun : id < m.nextTask
  task : ∀ task, m.tasks.get? id = some task →
    ∃ o', task.phase = .finish o' ∧ (task.label.isSome = true → o' = o)

theorem IsOver.move (h : m.IsOver id o) (hrun : FreeRun trace m) (hmove : Move m d m') :
    m'.IsOver id o ∧ d.sendings id = [] := by
  have hs := hrun.ledger.toOrderly
  have hbegun := h.begun.trans_le (hmove.nextTask_le hs)
  cases htask : m.tasks.get? id with
  | none =>
      refine ⟨⟨hbegun, fun task' hthere => ?_⟩, hmove.sendings_of_none htask⟩
      cases (hmove.get?_eq_none hs h.begun htask).symm.trans hthere
  | some task =>
      obtain ⟨o', hphase, hlabel⟩ := h.task task htask
      obtain ⟨site, hsite, hturn⟩ | ⟨hnone, hthere⟩ := hmove.of_task hs htask
      · rw [hphase] at hturn
        generalize hs' : m'.scene = s' at hturn
        have htasks : m'.tasks = s'.tasks := congrArg Scene.tasks hs'
        cases hturn with
        | wait =>
            refine ⟨⟨hbegun, fun task' hthere => ?_⟩, rfl⟩
            rw [htasks] at hthere
            cases htask.symm.trans hthere
            exact ⟨o', hphase, hlabel⟩
        | finish =>
            refine ⟨⟨hbegun, fun task' hthere => ?_⟩, rfl⟩
            rw [htasks] at hthere
            cases Registry.get?_erase_self.symm.trans hthere
        | keep hlooks | hold hlooks | send hlooks | unanswered hlooks => cases hlooks
      · refine ⟨⟨hbegun, fun task' htask' => ?_⟩, hnone⟩
        obtain ⟨cancelled, hthere⟩ | ⟨-, -, hthere⟩ := hthere <;>
          cases hthere.symm.trans htask'
        · exact ⟨o', hphase, hlabel⟩
        · refine ⟨.done, ?_, fun hsome => absurd hsome Bool.false_ne_true⟩
          simp only [hphase, Phase.unwind]

theorem Course.isOver (h : Course m past m') (hbefore : Annals before m) (hover : m.IsOver id o) :
    m'.IsOver id o ∧ sendings id past = [] := by
  refine h.invariant (J := fun past m => m.IsOver id o ∧ sendings id past = [])
    hbefore ⟨hover, rfl⟩ (fun hannals hmove _ ih => ?_) fun ih => ⟨⟨ih.1.begun, ih.1.task⟩, ih.2⟩
  obtain ⟨hover', hnone⟩ := ih.1.move hannals.free hmove
  rw [sendings_concat, ih.2, hnone]
  exact ⟨hover', rfl⟩

/-! ## Connections that are given up -/

/-- The task has the connection and is about to have it destroyed. -/
def Rids (m : Machine) (id : TaskId) (i : Nat) (x : Nat × Nat) : Prop :=
  ∃ task, m.tasks.get? id = some task ∧ task.pool = i ∧
    ((∃ l text, task.phase = .discard l (.failed text) ∧ l.pool = i ∧ l.mark = x) ∨
      ∃ y o, task.phase = .destroy y o ∧ y.mark = x)

theorem Rids.holding (h : m.Rids id i x) : ∃ task y, m.tasks.get? id = some task ∧
    (i, y) ∈ task.phase.holdings task.pool ∧ y.resource = x := by
  obtain ⟨task, htask, rfl, ⟨l, text, hphase, hlender, rfl⟩ | ⟨y, o, hphase, rfl⟩⟩ := h
  · refine ⟨task, ⟨.lease, l.mark⟩, htask, ?_, rfl⟩
    rw [hphase, ← hlender]
    exact List.mem_singleton_self _
  · refine ⟨task, ⟨.destruction, y.mark⟩, htask, ?_, rfl⟩
    rw [hphase]
    exact List.mem_singleton_self _

/-- The task goes on to have the connection destroyed. -/
theorem Rids.turn (h : m.Rids id i x) (hrun : FreeRun trace m) (hmove : Move m d m')
    (htask : m.tasks.get? id = some task) (hsite : m.sites[task.pool]? = some site)
    (hturn : Turn m id task site task.phase d m'.scene) :
    m'.Rids id i x ∨ .destroyBegun i x ∈ d.events := by
  have hp := pools_of_site hsite
  have hid := (hrun.ledger.placed _ _ hp).id
  have hready := fun x hchange => hrun.ledger.ready_of_move hmove _ x hchange _ hp
  obtain ⟨task, hthere, rfl, hphase⟩ := h
  cases hthere.symm.trans htask
  have hgoes : ∀ {y o}, m'.scene.tasks.get? id = some { task with phase := .destroy y o } →
      y.mark = x → m'.Rids id task.pool x := fun hget hmark =>
    ⟨_, hget, rfl, .inr ⟨_, _, rfl, hmark⟩⟩
  have hstays : m'.scene = m.scene → m'.Rids id task.pool x := fun hscene =>
    ⟨task, (congrArg (·.tasks.get? id) hscene).trans htask, rfl, hphase⟩
  generalize m'.scene = s' at hturn hgoes hstays
  obtain ⟨l, text, hphase, hlender, rfl⟩ | ⟨y, o, hphase, rfl⟩ := hphase <;> rw [hphase] at hturn
  · cases hturn with
    | wait => exact .inl (hstays rfl)
    | discardForeign hforeign => exact absurd (hlender.trans hid.symm) hforeign
    | discard _ hdiscard =>
        refine .inl (hgoes (Scene.get?_go_self htask _) ?_)
        exact Pool.discard_mark (congrArg Prod.fst hdiscard)
    | discardRefused _ hrefused =>
        obtain ⟨x, hx⟩ := Pool.discard_ok (hready _ rfl)
        cases (congrArg Prod.fst hrefused).symm.trans hx
    | keep hlooks | hold hlooks | send hlooks | unanswered hlooks => cases hlooks
  · cases hturn with
    | wait => exact .inl (hstays rfl)
    | destroy => exact .inr (List.mem_singleton_self _)
    | keep hlooks | hold hlooks | send hlooks | unanswered hlooks => cases hlooks

theorem Rids.move (h : m.Rids id i x) (hrun : FreeRun trace m) (hmove : Move m d m')
    (hunbroken : m.Unbroken m') : m'.Rids id i x ∨ .destroyBegun i x ∈ d.events := by
  obtain ⟨task, htask, hpool, hphase⟩ := h
  obtain ⟨site, hsite, hturn⟩ | ⟨-, ⟨cancelled, hthere⟩ | ⟨hstop, -, hthere⟩⟩ :=
    hmove.of_task hrun.ledger.toOrderly htask
  · exact Rids.turn ⟨task, htask, hpool, hphase⟩ hrun hmove htask hsite hturn
  · exact .inl ⟨_, hthere, hpool, hphase⟩
  · obtain ⟨hlabel, hmay⟩ := Bool.and_eq_true_iff.1 hstop
    obtain ⟨l, text, hphase, -⟩ | ⟨y, o, hphase, -⟩ := hphase
    · -- the caller would have gone away between the failure and the discarding
      have hsame := hunbroken id task _ htask (by rw [hphase]; rfl) hthere
      rw [← hsame] at hlabel
      cases hlabel
    · rw [hphase] at hmay
      cases hmay

/-- The task needs two turns at most to begin the destruction. -/
theorem Rids.can_destroy (h : m.Rids id i x) (hrun : FreeRun trace m) :
    ∃ t m', Path m t m' ∧ x ∈ destroyed t i := by
  -- the second turn, or the only one
  have hlast : ∀ {trace m task y o}, FreeRun trace m → m.tasks.get? id = some task →
      task.pool = i → task.phase = .destroy y o → y.mark = x →
      ∃ d m', Move m d m' ∧ .destroyBegun i x ∈ d.events := by
    rintro trace m task y o hrun htask rfl hphase rfl
    obtain ⟨site, hsite⟩ := hrun.site_of_task htask
    refine ⟨_, _, .part htask hsite, ?_⟩
    rw [deed, hphase]
    exact List.mem_singleton_self _
  have hmem : ∀ {t : List Deed} {d : Deed}, d ∈ t ++ [d] := fun {t d} =>
    List.mem_append_right t (List.mem_singleton_self d)
  obtain ⟨task, htask, hpool, ⟨l, text, hphase, hlender, hmark⟩ | ⟨y, o, hphase, hmark⟩⟩ := h
  · obtain ⟨site, hsite⟩ := hrun.site_of_task htask
    have hmove := Move.part htask hsite
    have hp := pools_of_site hsite
    have hid := (hrun.ledger.placed _ _ hp).id
    have hready := fun x hchange => hrun.ledger.ready_of_move hmove _ x hchange _ hp
    have hturn : Turn m id task site _ _ _ := turn_part hsite
    have hdeed : m.deed id task site = { change := some (task.pool, .discard l) } := by
      rw [deed, hphase]
      exact if_pos (hlender.trans (hpool.symm.trans hid.symm))
    have hrun' := hrun.move hmove
    rw [hdeed] at hturn hmove hready
    rw [hphase] at hturn
    have hnext : ∀ {y o}, (m.stepTask id task site).scene.tasks.get? id =
        some { task with phase := .destroy y o } → y.mark = x →
        ∃ t m', Path m t m' ∧ x ∈ destroyed t i := by
      intro y o hget hy
      obtain ⟨d, m', hmove', hd⟩ := hlast hrun' hget hpool rfl hy
      exact ⟨_, m', .move (.move (.stay m) hmove) hmove', mem_destroyed hmem hd⟩
    generalize (m.stepTask id task site).scene = s' at hturn hnext
    cases hturn with
    | discard _ hdiscard =>
        refine hnext (Scene.get?_go_self htask _) ?_
        exact (Pool.discard_mark (congrArg Prod.fst hdiscard)).trans hmark
    | discardRefused _ hrefused =>
        obtain ⟨x, hx⟩ := Pool.discard_ok (hready _ rfl)
        cases (congrArg Prod.fst hrefused).symm.trans hx
  · obtain ⟨d, m', hmove, hd⟩ := hlast hrun htask hpool hphase hmark
    exact ⟨_, m', .move (.stay m) hmove, mem_destroyed hmem hd⟩

/-- The connection is not used any more. -/
structure Outcast (m : Machine) (id : TaskId) (i : Nat) (x : Nat × Nat)
    (later : List (Machine × Deed)) : Prop where
  /-- The task is about to have it destroyed, or the destruction has begun. -/
  goes : m.Rids id i x ∨ x ∈ destroyed (later.map (·.2)) i
  /-- Nothing was sent over it. -/
  silent : ∀ entry ∈ later, ∀ statement, .sent i x.2 statement ∉ entry.2.events

theorem Outcast.can_destroy (h : m.Outcast id i x later) (hrun : FreeRun trace m) :
    ∃ t m', Path m t m' ∧ x ∈ destroyed (later.map (·.2) ++ t) i := by
  obtain hrids | hdestroyed := h.goes
  · obtain ⟨t, m', hpath, hmem⟩ := hrids.can_destroy hrun
    refine ⟨t, m', hpath, ?_⟩
    rw [destroyed_append]
    exact List.mem_append_right _ hmem
  · exact ⟨[], m, .stay m, by rwa [List.append_nil]⟩

/-- A connection that is about to be destroyed, or was, has nothing sent over it. -/
theorem Move.silent (hrun : FreeRun trace m) (hmove : Move m d m')
    (h : m.Rids id i x ∨ x ∈ destroyed trace i) (statement : CompiledQuery) :
    .sent i x.2 statement ∉ d.events := by
  intro hmem
  obtain ⟨p, hp, lease, hlease, hnumber⟩ := hmove.of_sent hmem
  have hholding := Pool.lease_mem_holdings (.inr hlease)
  obtain hrids | hdestroyed := h
  · obtain ⟨task, y, htask, hy, rfl⟩ := hrids.holding
    exact (hrun.hasAlone htask hy).pool p hp _ hholding hnumber
  · exact hrun.holding_ne_destroyed hdestroyed _ (mem_holdings_of_pool hp hholding) hnumber

theorem Outcast.move (h : m.Outcast id i x later) (hrun : FreeRun (trace ++ later.map (·.2)) m)
    (hmove : Move m d m') (hunbroken : m.Unbroken m') :
    m'.Outcast id i x (later ++ [(m, d)]) := by
  refine ⟨?_, ?_⟩
  · rw [List.map_append, destroyed_append, List.mem_append]
    obtain hrids | hdestroyed := h.goes
    · refine (hrids.move hrun hmove hunbroken).imp_right fun hd => .inr ?_
      exact mem_destroyed (List.mem_singleton_self d) hd
    · exact .inr (.inl hdestroyed)
  · rw [List.forall_mem_append, List.forall_mem_singleton]
    refine ⟨h.silent, Move.silent hrun hmove (h.goes.imp_right fun hdestroyed => ?_)⟩
    rw [destroyed_append]
    exact List.mem_append_right _ hdestroyed

theorem Course.outcast (h : Course m later m') (hbefore : Annals before m)
    (hrids : m.Rids id i x) : m'.Outcast id i x later := by
  refine h.invariant (J := fun later m => m.Outcast id i x later) hbefore
    ⟨.inl hrids, List.forall_mem_nil _⟩ (fun hannals hmove hunbroken ih => ?_) fun ih => ?_
  · have hrun := hannals.free
    rw [List.map_append] at hrun
    exact ih.move hrun hmove hunbroken
  · exact ⟨ih.goes, ih.silent⟩

/-! ## Connections that come back -/

/-- The task has the connection and is about to give it back with what the statement has given. -/
def Returns (m : Machine) (id : TaskId) (i : Nat) (l : Lease Connection) : Prop :=
  ∃ task r, m.tasks.get? id = some task ∧ task.pool = i ∧ task.phase = .giveBack l (.replied r) ∧
    l.pool = i

/-- The pool took the lease back, and kept the connection or recycled it. -/
def TakenBack (i : Nat) (l : Lease Connection) (entry : Machine × Deed) : Prop :=
  ∃ m' p now sample, Move entry.1 entry.2 m' ∧ entry.1.pool? i = some p ∧
    entry.2.change = some (i, .giveBack now sample l) ∧
    (m'.IsKept i p l.mark ∨ m'.IsRecycled i l.mark)

theorem Returns.move (h : m.Returns id i l) (hrun : FreeRun trace m) (hmove : Move m d m')
    (hunbroken : m.Unbroken m') : m'.Returns id i l ∨ TakenBack i l (m, d) := by
  obtain ⟨task, r, htask, rfl, hphase, hlender⟩ := h
  obtain ⟨site, hsite, hturn⟩ | ⟨-, ⟨cancelled, hthere⟩ | ⟨hstop, -, hthere⟩⟩ :=
    hmove.of_task hrun.ledger.toOrderly htask
  · have hp := pool?_of_site hsite
    have hplaced := (pool?_eq _ _).symm.trans hp
    have hid := (hrun.ledger.placed _ _ hplaced).id
    have hready := fun x hchange => hrun.ledger.ready_of_move hmove _ x hchange _ hplaced
    have hback : d.change = some (task.pool, .giveBack m.now m.sample l) →
        TakenBack task.pool l (m, d) := by
      intro hchange
      obtain ⟨born, -, ⟨-, hrecycled⟩ | ⟨-, hkept⟩⟩ := hrun.returned hmove hp hchange .giveBack
      · exact ⟨m', site.pool, m.now, m.sample, hmove, hp, hchange, .inr hrecycled⟩
      · exact ⟨m', site.pool, m.now, m.sample, hmove, hp, hchange, .inl hkept⟩
    have hstays : m'.scene = m.scene → m'.Returns id task.pool l := fun hscene =>
      ⟨task, r, (congrArg (·.tasks.get? id) hscene).trans htask, rfl, hphase, hlender⟩
    rw [hphase] at hturn
    generalize m'.scene = s' at hturn hstays
    cases hturn with
    | wait => exact .inl (hstays rfl)
    | giveBackForeign hforeign => exact absurd (hlender.trans hid.symm) hforeign
    | giveBack | recycle => exact .inr (hback rfl)
    | giveBackRefused _ hrefused =>
        obtain ⟨x, hx⟩ := Pool.giveBack_ok (hready _ rfl) m.now m.sample
        cases (congrArg Prod.fst hrefused).symm.trans hx
    | keep hlooks | hold hlooks | send hlooks | unanswered hlooks => cases hlooks
  · exact .inl ⟨_, r, hthere, rfl, hphase, hlender⟩
  · have hsame := hunbroken id task _ htask (by rw [hphase]; rfl) hthere
    obtain ⟨hlabel, -⟩ := Bool.and_eq_true_iff.1 hstop
    rw [← hsame] at hlabel
    cases hlabel

theorem Course.returns (h : Course m later m') (hbefore : Annals before m)
    (hreturns : m.Returns id i l) :
    m'.Returns id i l ∨ ∃ entry ∈ later, TakenBack i l entry := by
  refine h.invariant (J := fun later m => m.Returns id i l ∨ ∃ entry ∈ later, TakenBack i l entry)
    hbefore (.inl hreturns) ?_ fun ih => ih
  rintro later m d m' hannals hmove hunbroken (hreturns | ⟨entry, hentry, hback⟩)
  · refine (hreturns.move hannals.free hmove hunbroken).imp_right fun hback => ?_
    exact ⟨_, List.mem_append_right _ (List.mem_singleton_self _), hback⟩
  · exact .inr ⟨entry, List.mem_append_left _ hentry, hback⟩

/-! ## Calls of a database -/

/-- A call begins by asking for a connection, or is over if its fragment does not compile. -/
theorem issue_call (hrequest : request ≠ .compile) :
    m₀.issue (.call db label request (.ok f)) = m₀.spawn ⟨db.pool, label,
      match f.compile db.dialect with
      | .error e => .finish (.failed (.template e))
      | .ok statement => .ask request.priority (.run statement request), false⟩ := by
  cases hcompile : f.compile db.dialect with
  | error e => simp only [issue, taskFor, Database.compile, hcompile, Except.mapError]
  | ok statement =>
      cases request with
      | compile => exact absurd rfl hrequest
      | _ => simp only [issue, taskFor, Database.compile, hcompile, Except.mapError]

theorem Annals.issue_call (hbefore : Annals before m₀) (hsite : db.pool < m₀.sites.length)
    (label : String) (request : Request) (f : Fragment) :
    Annals (before ++ [(m₀, ({} : Deed))]) (m₀.issue (.call db label request (.ok f))) := by
  have htask : m₀.taskFor (.call db label request (.ok f)) = some _ := rfl
  exact hbefore.move (.begin htask hsite)

theorem get?_spawn (m : Machine) (task : Task) :
    (m.spawn task).tasks.get? m.nextTask = some task :=
  Registry.get?_insert_self

theorem isOver_issue {e : TemplateError} (hrequest : request ≠ .compile)
    (h : f.compile db.dialect = .error e) :
    (m₀.issue (.call db label request (.ok f))).IsOver m₀.nextTask
      (.failed (.template e)) := by
  rw [issue_call hrequest, h]
  refine ⟨Nat.lt_succ_self _, fun task hthere => ?_⟩
  cases (get?_spawn _ _).symm.trans hthere
  exact ⟨_, rfl, fun _ => rfl⟩

theorem onCall_issue (hrequest : request ≠ .compile)
    (h : f.compile db.dialect = .ok statement) :
    (m₀.issue (.call db label request (.ok f))).OnCall m₀.nextTask db.pool statement request
      [] := by
  rw [issue_call hrequest, h]
  refine ⟨Nat.lt_succ_self _, .inl rfl, fun task hthere => ?_⟩
  cases (get?_spawn _ _).symm.trans hthere
  exact ⟨rfl, fun _ => .inl (.ask _), fun hnone => absurd hnone (Option.some_ne_none label)⟩

/-- A call whose fragment does not compile, at any time since. -/
structure CallFails (m : Machine) (id : TaskId) (e : TemplateError)
    (past : List (Machine × Deed)) : Prop where
  /-- No statement is sent. -/
  unsent : sendings id past = []
  /-- If the caller is still there, this is its outcome. -/
  outcome : ∀ task, m.tasks.get? id = some task → task.label.isSome = true →
    task.phase = .finish (.failed (.template e))
  /-- What the task does changes no pool. -/
  pools : ∀ task site, m.tasks.get? id = some task →
    (m.stepTask id task site).sites.map (·.pool) = m.sites.map (·.pool)

/-- A call that sends a statement, at any time since. -/
structure CallRuns (m : Machine) (id : TaskId) (i : Nat) (statement : CompiledQuery)
    (request : Request) (past : List (Machine × Deed)) : Prop where
  /-- The statement is sent once at most. -/
  once : sendings id past = [] ∨ ∃ c, sendings id past = [.sent i c statement]
  /-- A caller that comes to its end was refused by the pool and sent nothing, or the statement was
  sent and this is the answer. -/
  concluded : ∀ task o, m.tasks.get? id = some task → task.label.isSome = true →
    task.phase = .finish o → Concluded i statement request (sendings id past) o
  /-- While the statement runs nobody else has the connection. -/
  alone : ∀ task l due job, m.tasks.get? id = some task → task.phase = .work l due job →
    sendings id past = [.sent i l.resource.number statement] ∧
      m.HasAlone id i l.resource.number
  /-- When it has failed, the connection is not used any more. -/
  failed : ∀ task site l due job text later m', m.tasks.get? id = some task →
    m.sites[i]? = some site → task.phase = .work l due job → due ≤ m.now →
    m.server.respond statement = .error text → Course (m.stepTask id task site) later m' →
    m'.Outcast id i l.mark later ∧
      ∃ t m'', Path m' t m'' ∧ l.mark ∈ destroyed (later.map (·.2) ++ t) i
  /-- When it has succeeded, the connection goes back to the pool. -/
  succeeded : ∀ task site l due job rows later m', m.tasks.get? id = some task →
    m.sites[i]? = some site → task.phase = .work l due job → due ≤ m.now →
    m.server.respond statement = .ok rows → Course (m.stepTask id task site) later m' →
    m'.Returns id i l ∨ ∃ entry ∈ later, TakenBack i l entry

theorem OnCall.callRuns (h : m.OnCall id i statement request (sendings id past))
    (hbefore : Annals before m) : m.CallRuns id i statement request past := by
  have hworks : ∀ {task l due job}, m.tasks.get? id = some task → task.phase = .work l due job →
      sendings id past = [.sent i l.resource.number statement] ∧ l.pool = i ∧ task.pool = i ∧
        job = .run statement request := by
    intro task l due job htask hphase
    have hcall := h.task task htask
    cases hlabel : task.label with
    | none =>
        have hleaves := hcall.leaves hlabel
        rw [hphase] at hleaves
        obtain ⟨handle, heq⟩ | hends := hleaves
        · cases heq
        · cases hends
    | some label =>
        have hstage := hcall.stage (by rw [hlabel]; rfl)
        rw [hphase] at hstage
        obtain hunder | ⟨o, -, hends⟩ := hstage
        · generalize sendings id past = sent at hunder
          cases hunder with
          | work _ hlender => exact ⟨rfl, hlender, hcall.pool, rfl⟩
        · cases hends
  have hsteps : ∀ {task site l due job}, m.tasks.get? id = some task → m.sites[i]? = some site →
      task.phase = .work l due job → due ≤ m.now → task.pool = i ∧ l.pool = i ∧
        Annals (before ++ [(m, m.deed id task site)]) (m.stepTask id task site) ∧
        (m.stepTask id task site).tasks.get? id =
          some { task with phase := afterWork m.server l (.run statement request) } := by
    intro task site l due job htask hsite hphase hdue
    obtain ⟨-, hlender, hpool, rfl⟩ := hworks htask hphase
    subst hpool
    refine ⟨rfl, hlender, hbefore.move (.part htask hsite), ?_⟩
    rw [stepTask, hphase]
    simp only [stepCaller, if_pos hdue]
    exact get?_proceed htask _
  refine ⟨h.once, fun task o htask hlabel hphase => ?_, fun task l due job htask hphase => ?_,
    fun task site l due job text later m' htask hsite hphase hdue hrespond hlater => ?_,
    fun task site l due job rows later m' htask hsite hphase hdue hrespond hlater => ?_⟩
  · have hstage := (h.task task htask).stage hlabel
    rw [hphase] at hstage
    exact hstage.concluded
  · obtain ⟨hsent, hlender, -⟩ := hworks htask hphase
    have hy : (l.pool, ⟨.lease, l.mark⟩) ∈ task.phase.holdings task.pool :=
      Phase.lease_mem_holdings (by rw [hphase]; rfl)
    rw [hlender] at hy
    exact ⟨hsent, hbefore.free.hasAlone htask hy⟩
  · obtain ⟨hpool, hlender, hannals, hthere⟩ := hsteps htask hsite hphase hdue
    simp only [afterWork, hrespond] at hthere
    have houtcast := hlater.outcast hannals
      ⟨_, hthere, hpool, .inl ⟨l, _, rfl, hlender, rfl⟩⟩
    exact ⟨houtcast, houtcast.can_destroy (hlater.annals hannals).free⟩
  · obtain ⟨hpool, hlender, hannals, hthere⟩ := hsteps htask hsite hphase hdue
    simp only [afterWork, hrespond] at hthere
    exact hlater.returns hannals ⟨_, _, hthere, hpool, rfl, hlender⟩

/-- A call of a database, with any number of other callers about. If its fragment does not compile,
the call ends with this error and no pool is touched. Otherwise it sends its statement once, unless
the pool refuses it or the caller goes away, over a connection that nobody else has; when the
statement has failed the connection is destroyed and never used again, and when it has succeeded the
pool takes the connection back. -/
theorem one_statement_per_call (hbefore : Annals before m₀) (hsite : db.pool < m₀.sites.length)
    (hrequest : request ≠ .compile)
    (h : Course (m₀.issue (.call db label request (.ok f))) past m) :
    (m₀.issue (.call db label request (.ok f))).sites = m₀.sites ∧
    (∀ e, f.compile db.dialect = .error e → m.CallFails m₀.nextTask e past) ∧
    ∀ statement, f.compile db.dialect = .ok statement →
      m.CallRuns m₀.nextTask db.pool statement request past := by
  have hannals := hbefore.issue_call hsite label request f
  refine ⟨?_, fun e he => ?_, fun statement hcompile => ?_⟩
  · rw [issue_call hrequest]
    rfl
  · obtain ⟨hover, hnone⟩ := h.isOver hannals (isOver_issue hrequest he)
    refine ⟨hnone, fun task htask hlabel => ?_, fun task site htask => ?_⟩
    · obtain ⟨o, hphase, ho⟩ := hover.task task htask
      rw [hphase, ho hlabel]
    · obtain ⟨o, hphase, -⟩ := hover.task task htask
      have hscene : (m.stepTask m₀.nextTask task site).scene = m.scene.remove m₀.nextTask := by
        rw [stepTask, hphase]
        exact scene_conclude _ _ _ _
      exact congrArg Scene.pools hscene
  · exact (h.onCall hannals (onCall_issue hrequest hcompile)).callRuns (h.annals hannals)

/-- A server on which statements without parameters fail. -/
def pickyServer : Server where
  delay := 0
  respond statement := if statement.params.isEmpty then .error "reset" else .ok []

def pickyDatabase : Database := ⟨0, .postgres⟩

/-- One call has begun. -/
def oneCalls : List Choice :=
  [.build { max := 2 } {}, .begin (.call pickyDatabase "a" .execute (.ok ⟨[.param .null]⟩))]

/-- Another one begins, whose statement fails, and both have sent their statements. -/
def bothSend : List Choice :=
  [.part 0, .part 1, .perform 0, .perform 0, .part 2, .part 2, .perform 0, .part 3, .part 3,
    .perform 0, .part 0, .part 1]

/-- The connection of the failed statement is destroyed, and a third call is sent over the other
one. -/
def otherGoesOn : List Choice :=
  [.part 1, .part 1, .begin (.call pickyDatabase "c" .queryOne (.ok ⟨[.param .null]⟩)),
    .part 0, .part 0, .part 4, .perform 0, .part 4]

/-- The machine when the other call is issued. -/
def calledOnce : Machine := (({ server := pickyServer } : Machine).follow oneCalls).2

/-- The machine when its statement has failed. -/
def sentTwice : Machine :=
  ((calledOnce.issue (.call pickyDatabase "b" (.query 0) (.ok ⟨[.text "x"]⟩))).follow bothSend).2

theorem one_statement_per_call_sentTwice : ∃ before past task site l job later m',
    Annals before calledOnce ∧ pickyDatabase.pool < calledOnce.sites.length ∧
    Course (calledOnce.issue (.call pickyDatabase "b" (.query 0) (.ok ⟨[.text "x"]⟩))) past
      sentTwice ∧
    sentTwice.tasks.get? calledOnce.nextTask = some task ∧ task.phase = .work l 0 job ∧
    l.mark = (2, 2) ∧ sentTwice.HasAlone calledOnce.nextTask 0 2 ∧
    Course (sentTwice.stepTask calledOnce.nextTask task site) later m' ∧
    (sendings 4 later).length = 1 ∧ m'.Outcast calledOnce.nextTask 0 (2, 2) later ∧
    (2, 2) ∈ destroyed (later.map (·.2)) 0 := by
  have hbefore : Annals _ calledOnce := (Annals.idle pickyServer).follow oneCalls
  have hcourse : Course _ _ sentTwice := (Course.stay _).follow bothSend (by decide)
  have hsite : pickyDatabase.pool < calledOnce.sites.length := by decide
  obtain ⟨task, site, l, job, htask, hthere, hphase, hmark, hunbroken, hsends, hdestroyed⟩ :
      ∃ task site l job, sentTwice.tasks.get? calledOnce.nextTask = some task ∧
        sentTwice.sites[0]? = some site ∧ task.phase = .work l 0 job ∧ l.mark = (2, 2) ∧
        (sentTwice.stepTask calledOnce.nextTask task site).followsUnbroken otherGoesOn = true ∧
        (sendings 4 ((sentTwice.stepTask calledOnce.nextTask task site).recount
          otherGoesOn)).length = 1 ∧
        (2, 2) ∈ destroyed (((sentTwice.stepTask calledOnce.nextTask task site).recount
          otherGoesOn).map (·.2)) 0 := by
    refine ⟨_, _, _, _, rfl, rfl, rfl, rfl, ?_, ?_, ?_⟩ <;> decide
  have hruns := (one_statement_per_call hbefore hsite (by decide) hcourse).2.2 ⟨"x", []⟩ rfl
  have hlater : Course (sentTwice.stepTask calledOnce.nextTask task site) _ _ :=
    (Course.stay _).follow otherGoesOn hunbroken
  obtain ⟨-, halone⟩ := hruns.alone task l 0 job htask hphase
  obtain ⟨houtcast, -⟩ := hruns.failed task site l 0 job "reset" _ _ htask hthere hphase
    (Nat.zero_le _) rfl hlater
  have hnumber : l.resource.number = 2 := congrArg Prod.snd hmark
  rw [hnumber] at halone
  rw [hmark] at houtcast
  exact ⟨_, _, task, site, l, job, _, _, hbefore, hsite, hcourse, htask, hphase, hmark, halone,
    hlater, hsends, houtcast, hdestroyed⟩

end Machine

end PooledSql
