import PooledSql.Proofs.Pool.Provenance
import PooledSql.Proofs.Simulation.Annals
import PooledSql.Proofs.Simulation.Attendance
import PooledSql.Proofs.Simulation.Ownership

/-!
# Validation

A pool that tests resources before it lends them lends one only when a validation of it has ended
well, and since that validation began the resource was nowhere else. One that was found to be bad
is to be destroyed, and stays so until it is.
-/

namespace PooledSql

open Machine

variable {m m' : Machine} {s' : Scene} {id : TaskId} {task task' : Task} {site : Site}
variable {phase : Phase} {d : Deed} {trace : List Deed} {i : Nat} {p p' : Pool Connection}
variable {x : Pooled Connection} {past : List (Machine × Deed)}

/-- The resource is in this place of the pool, and nowhere else. -/
def Machine.IsOnlyIn (m : Machine) (i : Nat) (place : Place) (x : Nat × Nat) : Prop :=
  ⟨place, x⟩ ∈ m.holdings i ∧ ∀ y ∈ m.holdings i, y.resource.1 = x.1 → y = ⟨place, x⟩

theorem Machine.FreeRun.isOnlyIn {place : Place} {x : Nat × Nat} (h : FreeRun trace m)
    (hx : ⟨place, x⟩ ∈ m.holdings i) : m.IsOnlyIn i place x :=
  ⟨hx, fun _ hy hnumber => h.holding_unique hy hx hnumber⟩

/-! ## Validations under way -/

/-- The task waits for the validation of a resource of the pool to end. -/
def Scene.Validates (s : Scene) (i : Nat) (id : TaskId) (x : Pooled Connection) : Prop :=
  ∃ task episode due, s.tasks.get? id = some task ∧ task.pool = i ∧
    task.phase = .validation x episode due

theorem Scene.Validates.mem_holdings (h : m.scene.Validates i id x) :
    ⟨.validation, x.mark⟩ ∈ m.holdings i := by
  obtain ⟨task, episode, due, htask, rfl, hphase⟩ := h
  refine mem_holdings_of_task htask ?_
  rw [hphase]
  exact List.mem_singleton_self _

/-- A validation that goes on after a turn went on before, or began with the turn. -/
theorem Turn.of_validation {episode : Episode} {due : Instant}
    (h : Turn m id task site phase d s') (hphase : task.phase = phase)
    (htask : m.tasks.get? id = some task) (htask' : s'.tasks.get? id = some task')
    (hvalidation : task'.phase = .validation x episode due) :
    phase = .validation x episode due ∨
      phase = .validate x ∧ .validateBegun task.pool x.mark ∈ d.events := by
  have hgone : ∀ {s : Scene} {next : Phase}, (s.go id next).tasks.get? id = some task' →
      next = .validation x episode due :=
    fun hgo => (Scene.phase_go hgo).symm.trans hvalidation
  cases h with
  | wait | drainQueue =>
      cases htask.symm.trans htask'
      exact .inl (hphase.symm.trans hvalidation)
  | finish => cases Registry.get?_erase_self.symm.trans htask'
  | keep _ _ hnext | hangUp hnext =>
      have hnext := hnext.symm.trans (hgone htask')
      split at hnext <;> cases hnext
  | @worked lease due job =>
      obtain ⟨outcome, hwork | hwork⟩ := afterWork_cases m.server lease job <;>
        cases hwork.symm.trans (hgone htask')
  | validate =>
      cases hgone htask'
      exact .inr ⟨rfl, List.mem_singleton_self _⟩
  | _ => cases hgone htask'

theorem Machine.Move.of_validates (hs : m.scene.Orderly) (h : Move m d m')
    (hvalidates : m'.scene.Validates i id x) : m.scene.Validates i id x ∨
      .validateBegun i x.mark ∈ d.events ∧ ⟨.validation, x.mark⟩ ∈ m.holdings i := by
  obtain ⟨task', episode, due, htask', rfl, hvalidation⟩ := hvalidates
  obtain ⟨task, htask, hpool, hphase⟩ | ⟨task, site, htask, -, hpool, hturn⟩ |
    ⟨task, -, hunwind⟩ | ⟨-, -, hnew, -⟩ := h.origin hs htask'
  · exact .inl ⟨task, episode, due, htask, hpool.symm, hphase.symm.trans hvalidation⟩
  · obtain hphase | ⟨hphase, hbegun⟩ := hturn.of_validation rfl htask htask' hvalidation
    · exact .inl ⟨task, episode, due, htask, hpool.symm, hphase⟩
    · rw [hpool]
      refine .inr ⟨hbegun, mem_holdings_of_task htask ?_⟩
      rw [hphase]
      exact List.mem_singleton_self _
  · -- a task that is given up goes on to no validation
    have hunwind := hunwind.symm.trans hvalidation
    cases hphase : task.phase <;> rw [hphase] at hunwind <;> cases hunwind
  · rw [hvalidation] at hnew
    cases hnew

theorem Turn.of_validationEnded {now : Instant} {valid : Bool}
    (h : Turn m id task site phase d s')
    (hchange : d.change = some (i, .validationEnded now x valid)) :
    task.pool = i ∧ ∃ episode due, phase = .validation x episode due := by
  cases h with
  | validated =>
      cases hchange
      exact ⟨rfl, _, _, rfl⟩
  | _ => cases hchange

/-- A validation that ends was under way. -/
theorem Machine.Move.of_validationEnded {now : Instant} {valid : Bool} (h : Move m d m')
    (hchange : d.change = some (i, .validationEnded now x valid)) :
    ∃ id, m.scene.Validates i id x := by
  obtain ⟨id, task, site, htask, -, hturn⟩ | hact := h.cases
  · obtain ⟨hpool, episode, due, hphase⟩ := hturn.of_validationEnded hchange
    exact ⟨id, task, episode, due, htask, hpool, hphase⟩
  · exact absurd (hact.isAct hchange) Bool.false_ne_true

namespace Machine

/-- A validation that goes on has begun, and since then the resource was nowhere else. -/
theorem Annals.validates_since (h : Annals past m) (hvalidates : m.scene.Validates i id x) :
    ∃ before m₀ d₀ after, past = before ++ (m₀, d₀) :: after ∧
      .validateBegun i x.mark ∈ d₀.events ∧ m₀.IsOnlyIn i .validation x.mark ∧
      ∀ entry ∈ after, entry.1.IsOnlyIn i .validation x.mark := by
  obtain ⟨before, m₀, d₀, after, hpast, ⟨hbegun, hmem⟩, hafter⟩ := h.since
    (P := fun m => m.scene.Validates i id x)
    (B := fun m d => .validateBegun i x.mark ∈ d.events ∧ ⟨.validation, x.mark⟩ ∈ m.holdings i)
    (by rintro server ⟨task, episode, due, htask, -⟩; cases htask)
    (fun h hmove hvalidates => hmove.of_validates h.free.ledger.toOrderly hvalidates)
    (fun h => h) hvalidates
  refine ⟨before, m₀, d₀, after, hpast, hbegun, (h.of_append hpast).1.free.isOnlyIn hmem, ?_⟩
  intro entry hentry
  have hmem : entry ∈ past := by
    rw [hpast]
    exact List.mem_append_right _ (List.mem_cons_of_mem _ hentry)
  obtain ⟨⟨earlier, hearlier⟩, -⟩ := h.of_mem hmem
  exact hearlier.free.isOnlyIn (hafter entry hentry).mem_holdings

end Machine

/-! ## Destructions to come -/

theorem mem_destroyed {x : Nat × Nat} (hd : d ∈ trace) (h : .destroyBegun i x ∈ d.events) :
    x ∈ destroyed trace i :=
  List.mem_filterMap.2 ⟨.destroyBegun i x, List.mem_flatMap.2 ⟨d, hd, h⟩, if_pos rfl⟩

theorem mem_lost {x : Nat × Nat} (hd : d ∈ trace) (h : .lost i x ∈ d.events) :
    x ∈ lost trace i :=
  List.mem_filterMap.2 ⟨.lost i x, List.mem_flatMap.2 ⟨d, hd, h⟩, if_pos rfl⟩

theorem Pool.destruction_mem (h : .destroy x ∈ p.outbox) : ⟨.destruction, x.mark⟩ ∈ p.holdings :=
  List.mem_append_right _ (List.mem_append_left _
    (List.mem_flatMap.2 ⟨_, h, List.mem_singleton_self _⟩))

theorem Pool.of_destruction_mem {x : Nat × Nat} (h : ⟨.destruction, x⟩ ∈ p.holdings) :
    ∃ y, .destroy y ∈ p.outbox ∧ y.mark = x := by
  simp only [Pool.holdings, List.mem_append, List.mem_map, List.mem_flatMap] at h
  obtain ⟨y, -, heq⟩ | ⟨action, haction, hmem⟩ | ⟨l, -, heq⟩ := h
  · cases heq
  · cases action with
    | destroy y =>
        cases List.mem_singleton.1 hmem
        exact ⟨y, haction, rfl⟩
    | validate | deliver => cases List.mem_singleton.1 hmem
    | evict | create => cases hmem
  · cases heq

theorem Phase.of_destruction_mem {pool : Nat} {x : Nat × Nat}
    (h : (i, ⟨.destruction, x⟩) ∈ phase.holdings pool) :
    ∃ y outcome, phase = .destroy y outcome ∧ pool = i ∧ y.mark = x := by
  cases phase <;> simp [Phase.holdings] at h
  exact ⟨_, _, rfl, h.1.symm, h.2.symm⟩

theorem Turn.of_destroy {y : Pooled Connection} {outcome : Outcome}
    (h : Turn m id task site phase d s') (hphase : phase = .destroy y outcome) :
    s' = m.scene ∨ .destroyBegun task.pool y.mark ∈ d.events := by
  subst hphase
  cases h with
  | wait => exact .inl rfl
  | destroy => exact .inr (List.mem_singleton_self _)
  | keep hlooks | hold hlooks | send hlooks | unanswered hlooks => cases hlooks

theorem Turn.performs_eq_nil {x : Section Connection} (h : Turn m id task site phase d s')
    (hchange : d.change = some (i, x)) : x.performs = [] := by
  cases h <;> cases hchange <;> rfl

/-- An action to destroy a resource leaves the outbox when its task is started, or when that cannot
be done. -/
theorem Act.of_performs_destroy {y : Section Connection} (h : Act m d s')
    (hchange : d.change = some (i, y)) (hperforms : .destroy x ∈ y.performs) :
    s'.tasks.get? m.nextTask = some ⟨i, none, .destroy x .done, false⟩ ∨
      .lost i x.mark ∈ d.events := by
  cases h with
  | launch =>
      cases hchange
      cases List.mem_singleton.1 hperforms
      exact .inl Registry.get?_insert_self
  | abandon =>
      cases hchange
      cases List.mem_singleton.1 hperforms
      exact .inr (List.mem_singleton_self _)
  | stop htask hstop =>
      rw [stopDeed] at hchange
      split at hchange <;> cases hchange
  | deliver =>
      cases hchange
      cases List.mem_singleton.1 hperforms
  | _ => cases hchange <;> exact absurd hperforms List.not_mem_nil

/-- A resource that is about to be destroyed stays so until its destruction begins or it is lost. -/
theorem Machine.FreeRun.keeps_destruction {x : Nat × Nat} (h : FreeRun trace m)
    (hmove : Move m d m') (hx : ⟨.destruction, x⟩ ∈ m.holdings i) :
    ⟨.destruction, x⟩ ∈ m'.holdings i ∨ .destroyBegun i x ∈ d.events ∨ .lost i x ∈ d.events := by
  have hs := h.ledger.toOrderly
  obtain ⟨p, hp, hmem⟩ | ⟨id, task, htask, hmem⟩ | ⟨entry, -, -, heq⟩ := of_mem_holdings hs hx
  · obtain ⟨y, hposted, rfl⟩ := Pool.of_destruction_mem hmem
    have hp' := hmove.pool? hp
    have hwaits : .destroy y ∈ (d.run i p).outbox → ⟨.destruction, y.mark⟩ ∈ m'.holdings i :=
      fun hposted => mem_holdings_of_pool hp' (Pool.destruction_mem hposted)
    obtain ⟨-, heq⟩ | ⟨s, hchange, heq⟩ := d.run_cases i p
    · exact .inl (hwaits (by rwa [heq]))
    · obtain ⟨hsound, hready⟩ := h.section_of_move hmove hp hchange
      obtain hstays | hperforms := (Section.continues hsound hready).outbox _ hposted
      · exact .inl (hwaits (by rwa [heq]))
      · obtain ⟨id, task, site, -, -, hturn⟩ | hact := hmove.cases
        · rw [hturn.performs_eq_nil hchange] at hperforms
          exact absurd hperforms List.not_mem_nil
        · obtain htask | hlost := hact.of_performs_destroy hchange hperforms
          · exact .inl (mem_holdings_of_task htask (List.mem_singleton_self _))
          · exact .inr (.inr hlost)
  · obtain ⟨y, outcome, hphase, rfl, rfl⟩ := Phase.of_destruction_mem hmem
    have hstop : task.mayStop = false := by rw [Task.mayStop, hphase, Bool.and_false]
    obtain ⟨site, -, hturn⟩ | ⟨task', htask', hpool, hphase'⟩ := hmove.stays hs htask hstop
    · obtain hsame | hbegun := hturn.of_destroy hphase
      · have htask' : m'.tasks.get? id = some task :=
          (congrArg (·.tasks.get? id) hsame).trans htask
        exact .inl (mem_holdings_of_task htask' hmem)
      · exact .inr (.inl hbegun)
    · refine .inl (mem_holdings_of_task htask' ?_)
      rw [hpool, hphase']
      exact hmem
  · cases heq

/-- Inside a runtime, a resource that is about to be destroyed can be. -/
theorem Machine.FreeRun.can_destroy {x : Nat × Nat} (h : FreeRun trace m)
    (hruntime : m.runtime = true) (hx : ⟨.destruction, x⟩ ∈ m.holdings i) :
    ∃ t m', Path m t m' ∧ x ∈ destroyed t i := by
  -- once a task has been started for it
  have htask : ∀ {trace m id task y outcome}, FreeRun trace m → m.tasks.get? id = some task →
      task.phase = .destroy y outcome →
      ∃ d m', Move m d m' ∧ .destroyBegun task.pool y.mark ∈ d.events := by
    intro trace m id task y outcome h htask hphase
    obtain ⟨site, hsite⟩ := h.site_of_task htask
    refine ⟨_, _, .part htask hsite, ?_⟩
    rw [deed, hphase]
    exact List.mem_singleton_self _
  have hlast : ∀ {d : Deed} {t : List Deed}, d ∈ t ++ [d] :=
    List.mem_append_right _ (List.mem_singleton_self _)
  obtain ⟨p, hp, hmem⟩ | ⟨id, task, hrunning, hmem⟩ | ⟨entry, -, -, heq⟩ :=
    of_mem_holdings h.ledger.toOrderly hx
  · obtain ⟨y, hposted, rfl⟩ := Pool.of_destruction_mem hmem
    obtain ⟨site, hsite, rfl⟩ := Option.map_eq_some_iff.1 hp
    obtain ⟨before, after, houtbox⟩ := List.append_of_mem hposted
    have hperform := Move.perform hsite houtbox
    have hstarted : (m.perform i { site.pool with outbox := before ++ after } (.destroy y)).tasks =
        m.tasks.insert m.nextTask ⟨i, none, .destroy y .done, false⟩ := by
      rw [perform, launch, if_pos hruntime]
      rfl
    have hnew : (m.perform i { site.pool with outbox := before ++ after } (.destroy y)).tasks.get?
        m.nextTask = some ⟨i, none, .destroy y .done, false⟩ := by
      rw [hstarted]
      exact Registry.get?_insert_self
    obtain ⟨d, m', hmove, hd⟩ := htask (h.move hperform) hnew rfl
    exact ⟨_, m', .move (.move (.stay m) hperform) hmove, mem_destroyed hlast hd⟩
  · obtain ⟨y, outcome, hphase, rfl, rfl⟩ := Phase.of_destruction_mem hmem
    obtain ⟨d, m', hmove, hd⟩ := htask h hrunning hphase
    exact ⟨_, m', .move (.stay m) hmove, mem_destroyed hlast hd⟩
  · cases heq

/-- The resource is about to be destroyed, or was destroyed or lost. -/
def Machine.Condemned (i : Nat) (x : Nat × Nat) (past : List (Machine × Deed)) (m : Machine) :
    Prop :=
  ⟨.destruction, x⟩ ∈ m.holdings i ∨ x ∈ destroyed (past.map (·.2)) i ∨
    x ∈ lost (past.map (·.2)) i

namespace Machine

/-- A resource that was found to be bad is condemned, and stays so. -/
theorem Annals.condemned {entry : Machine × Deed} {now : Instant} (h : Annals past m)
    (hentry : entry ∈ past)
    (hrejected : entry.2.change = some (i, .validationEnded now x false)) :
    Condemned i x.mark past m := by
  refine h.onwards (B := fun _ d => d.change = some (i, .validationEnded now x false)) ?_ ?_
    (fun h => h) ⟨entry, hentry, hrejected⟩
  · intro past m d m' h hmove hrejected
    obtain ⟨id, task, -, -, htask, rfl, -⟩ := hmove.of_validationEnded hrejected
    obtain ⟨site, hsite⟩ := h.free.site_of_task htask
    have hp := pool?_of_site hsite
    obtain ⟨hsound, hready⟩ := h.free.section_of_move hmove hp hrejected
    have hposted := Section.destroy_mem_rejected hsound hready
    refine .inl (mem_holdings_of_pool (hmove.pool? hp) ?_)
    rw [Deed.run_of_change hrejected]
    have hwaits := Pool.destruction_mem hposted
    exact hwaits
  · intro past m d m' h hmove hcondemned
    rw [Condemned, List.map_append, destroyed_append, lost_append]
    obtain hwaits | hgone | hgone := hcondemned
    · obtain hstays | hbegun | hlost := h.free.keeps_destruction hmove hwaits
      · exact .inl hstays
      · exact .inr (.inl (List.mem_append_right _
          (mem_destroyed (List.mem_singleton_self _) hbegun)))
      · exact .inr (.inr (List.mem_append_right _
          (mem_lost (List.mem_singleton_self _) hlost)))
    · exact .inr (.inl (List.mem_append_left _ hgone))
    · exact .inr (.inr (List.mem_append_left _ hgone))

/-- A condemned resource is in no other place and is counted once. -/
theorem Annals.count_condemned {x : Nat × Nat} (h : Annals past m) (hx : Condemned i x past m) :
    (∀ y ∈ m.holdings i, y.resource.1 = x.1 → y = ⟨.destruction, x⟩) ∧
      (m.holdings i).count ⟨.destruction, x⟩ + (destroyed (past.map (·.2)) i).count x +
        (lost (past.map (·.2)) i).count x = 1 := by
  have hnodup := h.free.nodup_numbers i
  have honly : ∀ y ∈ m.holdings i, y.resource.1 = x.1 → y = ⟨.destruction, x⟩ := by
    intro y hy hnumber
    obtain hwaits | hgone | hgone := hx
    · exact h.free.holding_unique hy hwaits hnumber
    all_goals
      refine absurd hnumber (List.nodup_append.1 hnodup |>.2.2 _ (List.mem_map_of_mem hy) _ ?_)
    · exact List.mem_append_left _ (List.mem_map_of_mem hgone)
    · exact List.mem_append_right _ (List.mem_map_of_mem hgone)
  refine ⟨honly, ?_⟩
  have hall : ((m.holdings i).map (·.resource) ++ (destroyed (past.map (·.2)) i ++
      lost (past.map (·.2)) i)).count x = 1 := by
    have hmem : x ∈ (m.holdings i).map (·.resource) ++ (destroyed (past.map (·.2)) i ++
        lost (past.map (·.2)) i) := by
      rw [List.mem_append, List.mem_append]
      exact hx.imp_left fun hwaits => List.mem_map.2 ⟨_, hwaits, rfl⟩
    refine List.count_eq_one_of_mem (List.Nodup.of_map (·.1) ?_) hmem
    rw [List.map_append, List.map_append, List.map_map]
    exact hnodup
  have hplaces : ((m.holdings i).map (·.resource)).count x =
      (m.holdings i).count ⟨.destruction, x⟩ := by
    rw [List.count, List.countP_map, List.count]
    apply List.countP_congr
    intro y hy
    rw [Function.comp, beq_iff_eq, beq_iff_eq]
    exact ⟨fun hresource => honly y hy (congrArg (·.1) hresource),
      fun heq => congrArg Holding.resource heq⟩
  rw [List.count_append, List.count_append, hplaces] at hall
  omega

end Machine

/-- While a pool tests resources before it lends them, no lease is put on its way to a caller but at
the end of a validation of its resource that went well; and since that validation began, the
resource was in no other place. A resource whose validation ended badly is never lent or made
available again. It is about to be destroyed, or the factory was told once to destroy it, unless
there was no runtime to do so; and inside a runtime, what is about to be destroyed can be. -/
theorem borrowed_after_validation (h : Annals past m) (hp : m.pool? i = some p)
    (htest : p.config.testOnBorrow = true) :
    (∀ d m' p', Move m d m' → m'.pool? i = some p' →
      p'.delivering.Sublist p.delivering ∨
        ∃ now x call, d.change = some (i, .validationEnded now x true) ∧
          p'.outbox = p.outbox ++ [.deliver call (x.lease i)] ∧
          m.IsOnlyIn i .validation x.mark ∧
          ∃ before m₀ d₀ after, past = before ++ (m₀, d₀) :: after ∧
            .validateBegun i x.mark ∈ d₀.events ∧ m₀.IsOnlyIn i .validation x.mark ∧
            ∀ entry ∈ after, entry.1.IsOnlyIn i .validation x.mark) ∧
      ∀ entry ∈ past, ∀ now x, entry.2.change = some (i, .validationEnded now x false) →
        (∀ y ∈ m.holdings i, y.resource.1 = x.id → y = ⟨.destruction, x.mark⟩) ∧
          (m.holdings i).count ⟨.destruction, x.mark⟩ +
            (destroyed (past.map (·.2)) i).count x.mark +
            (lost (past.map (·.2)) i).count x.mark = 1 ∧
          (m.runtime = true → x.mark ∉ lost (past.map (·.2)) i →
            ∃ t m', Path m t m' ∧ (destroyed (past.map (·.2) ++ t) i).count x.mark = 1) := by
  refine ⟨fun d m' p' hmove hp' => ?_, fun entry hentry now x hrejected => ?_⟩
  · cases (hmove.pool? hp).symm.trans hp'
    obtain ⟨-, heq⟩ | ⟨s, hchange, heq⟩ := d.run_cases i p <;> rw [heq]
    · exact .inl (List.Sublist.refl _)
    · obtain ⟨hsound, hready⟩ := h.free.section_of_move hmove hp hchange
      cases happroves : s.approves with
      | false => exact .inl ((Section.continues hsound hready).delivering htest happroves)
      | true =>
          cases s with
          | validationEnded now x valid =>
              obtain rfl : valid = true := happroves
              obtain ⟨call, hlent⟩ | hsame := Section.approved_cases hsound hready
              · obtain ⟨id, hvalidates⟩ := hmove.of_validationEnded hchange
                have hid := (h.free.ledger.placed i p ((pool?_eq _ _).symm.trans hp)).id
                exact .inr ⟨now, x, call, hchange, hid ▸ hlent,
                  h.free.isOnlyIn hvalidates.mem_holdings, h.validates_since hvalidates⟩
              · refine .inl ?_
                rw [Pool.delivering, Pool.delivering, hsame]
          | _ => exact absurd happroves Bool.false_ne_true
  · have hcondemned := h.condemned hentry hrejected
    obtain ⟨honly, hcount⟩ := h.count_condemned hcondemned
    refine ⟨honly, hcount, fun hruntime hkept => ?_⟩
    obtain hwaits | hgone | hgone := hcondemned
    · obtain ⟨t, m', hpath, hmem⟩ := h.free.can_destroy hruntime hwaits
      refine ⟨t, m', hpath, List.count_eq_one_of_mem ((h.free.path hpath).nodup_destroyed i) ?_⟩
      rw [destroyed_append]
      exact List.mem_append_right _ hmem
    · refine ⟨[], m, .stay m, ?_⟩
      rw [List.append_nil]
      exact List.count_eq_one_of_mem (h.free.nodup_destroyed i) hgone
    · exact absurd hgone hkept

/-- A connection that was lent once is found to be bad when it is to be lent again. It has been
destroyed, and the one that was made in its place is being validated. -/
def tested : List Choice :=
  [.build { max := 1, testOnBorrow := true } { validation := { told := [{}, { fails := true }] } },
    .begin (.acquire 0 "a" 0), .part 0, .perform 0, .part 1, .part 1, .perform 0, .part 2, .part 2,
    .perform 0, .part 0, .part 0, .begin (.release 0 "a"), .part 3,
    .begin (.acquire 0 "b" 0), .part 4, .perform 0, .part 5, .part 5, .perform 0, .part 6, .part 6,
    .perform 0, .part 7, .part 7, .perform 0, .part 8]

theorem borrowed_after_validation_tested : ∃ p past, (scheduled tested).2.pool? 0 = some p ∧
    p.config.testOnBorrow = true ∧ Annals past (scheduled tested).2 ∧
    (∃ d m' p', Move (scheduled tested).2 d m' ∧ m'.pool? 0 = some p' ∧
      ¬ p'.delivering.Sublist p.delivering) ∧
    ((scheduled tested).2.holdings 0).count ⟨.destruction, (1, 1)⟩ +
      (destroyed (past.map (·.2)) 0).count (1, 1) + (lost (past.map (·.2)) 0).count (1, 1) = 1 ∧
    (1, 1) ∈ destroyed (past.map (·.2)) 0 := by
  have hannals : Annals (({ server := .echo 0 } : Machine).recount tested) (scheduled tested).2 :=
    (Annals.idle (.echo 0)).follow tested
  have hrejected := (borrowed_after_validation (i := 0) hannals rfl rfl).2
  have hmove : Move (scheduled tested).2 _ _ := @Move.part _ 8 _ _ rfl rfl
  refine ⟨_, _, rfl, rfl, hannals, ⟨_, _, _, hmove, rfl, ?_⟩, ?_, by decide⟩
  · exact fun hnone => absurd hnone.length_le (by decide)
  · have hentry := List.mem_of_getElem? (i := 18)
      (l := ({ server := .echo 0 } : Machine).recount tested) rfl
    exact (hrejected _ hentry _ _ rfl).2.1

end PooledSql
