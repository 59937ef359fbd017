import PooledSql.Proofs.Pool.Recycling
import PooledSql.Proofs.Simulation.Plain
import PooledSql.Proofs.Simulation.Schedule
import PooledSql.Proofs.Simulation.Validation

/-!
# Recycling by age

The age of a resource counts from the end of the factory's call that made it. That time is handed
on from one record to the next, through any number of loans and validations, and decides at every
return whether the resource is recycled.
-/

namespace PooledSql

open Machine

variable {m m' : Machine} {s' : Scene} {id : TaskId} {task task' : Task} {site : Site}
variable {phase : Phase} {d : Deed} {trace : List Deed} {i : Nat} {p p' : Pool Connection}

/-! ## When resources were made -/

/-- The numbers of the resources of a pool that a deed makes, and when. -/
def Deed.births (d : Deed) (i : Nat) : List (Nat × Instant) :=
  match d.change with
  | some (_, .creationEnded now _) => (d.events.filterMap (Event.made? i)).map fun x => (x.1, now)
  | _ => []

/-- The numbers of the resources of a pool that were ever made, and when. -/
def births (trace : List Deed) (i : Nat) : List (Nat × Instant) := trace.flatMap (·.births i)

theorem births_append (trace : List Deed) (d : Deed) (i : Nat) :
    births (trace ++ [d]) i = births trace i ++ d.births i := by
  simp [births]

theorem Turn.births (h : Turn m id task site phase d s') (i : Nat) :
    (d.births i).map (·.1) = (d.events.filterMap (Event.made? i)).map (·.1) := by
  cases h with
  | created => simp [Deed.births]
  | _ => rfl

theorem Act.births (h : Act m d s') (i : Nat) :
    (d.births i).map (·.1) = (d.events.filterMap (Event.made? i)).map (·.1) := by
  cases h with
  | @abandon index pool before after action => cases action <;> rfl
  | stop =>
      rw [stopDeed]
      split <;> rfl
  | _ => rfl

namespace Machine

/-- Every resource was made at one time. -/
theorem FreeRun.map_births (h : FreeRun trace m) (i : Nat) :
    (births trace i).map (·.1) = (made trace i).map (·.1) := by
  induction h with
  | idle server => rfl
  | @move trace m m' d h hmove ih =>
      have hdeed : (d.births i).map (·.1) = (d.events.filterMap (Event.made? i)).map (·.1) := by
        obtain ⟨id, task, site, -, -, hturn⟩ | hact := hmove.cases
        · exact hturn.births i
        · exact hact.births i
      rw [births_append, made_append, List.map_append, List.map_append, ih, hdeed]
  | switch h runtime now ih => exact ih

theorem FreeRun.birth_unique (h : FreeRun trace m) {n : Nat} {born other : Instant}
    (hborn : (n, born) ∈ births trace i) (hother : (n, other) ∈ births trace i) :
    other = born := by
  have hnodup : ((births trace i).map (·.1)).Nodup := by
    rw [h.map_births i]
    exact h.nodup_made i
  exact congrArg Prod.snd (List.inj_on_of_nodup_map hnodup hother hborn rfl)

end Machine

/-! ## Records -/

/-- What a task in the phase says of the resource that it validates. -/
def Phase.records : Phase → List (Nat × Instant)
  | .validate x | .validation x _ _ => [x.record]
  | _ => []

theorem records_afterWork (server : Server) (lease : Lease Connection) (job : Job) :
    (afterWork server lease job).records = [] := by
  obtain ⟨outcome, h | h⟩ := afterWork_cases server lease job <;> rw [h] <;> rfl

/-- A task goes on with what it knew. -/
theorem Turn.records (h : Turn m id task site phase d s') (hphase : task.phase = phase)
    (htask : m.tasks.get? id = some task) (htask' : s'.tasks.get? id = some task') :
    task'.phase.records ⊆ phase.records := by
  have hgone : ∀ {s : Scene} {next : Phase}, (s.go id next).tasks.get? id = some task' →
      next.records = [] → task'.phase.records ⊆ phase.records := by
    intro s next hgo hnone
    rw [Scene.phase_go hgo, hnone]
    exact List.nil_subset _
  cases h with
  | wait | drainQueue =>
      cases htask.symm.trans htask'
      rw [hphase]
      exact List.Subset.refl _
  | finish => cases Registry.get?_erase_self.symm.trans htask'
  | keep _ _ hnext | hangUp hnext =>
      refine hgone htask' ?_
      rw [hnext]
      split <;> rfl
  | worked => exact hgone htask' (records_afterWork _ _ _)
  | validate =>
      rw [Scene.phase_go htask']
      exact List.Subset.refl _
  | _ => exact hgone htask' rfl

theorem records_unwind (phase : Phase) : phase.unwind.records = [] := by
  cases phase <;> rfl

/-- A task that begins knows of nothing but what its pool does. -/
theorem Task.IsOrdered.records (h : task.IsOrdered m.scene) (hnew : task.phase.isNew = true) :
    ∃ p, m.pool? task.pool = some p ∧ task.phase.records ⊆ p.records := by
  obtain ⟨p, hp, hordered⟩ := h
  refine ⟨p, (pool?_eq _ _).trans hp, ?_⟩
  cases hphase : task.phase with
  | validate x =>
      refine List.cons_subset.2 ⟨?_, List.nil_subset _⟩
      exact Pool.mem_records.2 (.inr (.inl ⟨x, hordered x hphase, rfl⟩))
  | validation =>
      rw [hphase] at hnew
      cases hnew
  | _ => exact List.nil_subset _

/-- What comes into a pool is what its task knew of a resource that was validated, or a resource is
made. -/
theorem Machine.Move.brings {x : Section Connection} (h : Move m d m') (hp : m.pool? i = some p)
    (hchange : d.change = some (i, x)) : x.brings p ⊆ d.births i ∨
      ∃ id task, m.tasks.get? id = some task ∧ task.pool = i ∧
        x.brings p ⊆ task.phase.records := by
  obtain ⟨id, task, site, htask, hsite, hturn⟩ | hact := h.cases
  · have hpool := pool?_of_site hsite
    generalize hphase : task.phase = phase at hturn
    generalize m'.scene = s' at hturn
    cases hturn with
    | @created episode due made hmade =>
        cases hchange
        cases hpool.symm.trans hp
        cases made with
        | none => exact .inl (List.nil_subset _)
        | some c => exact .inl (by simp [Section.brings, Deed.births, Event.made?])
    | @validated x episode due valid hvalid =>
        cases hchange
        refine .inr ⟨id, task, htask, rfl, ?_⟩
        rw [hphase]
        exact List.Subset.refl _
    | _ => cases hchange <;> exact .inl (List.nil_subset _)
  · have hisAct := hact.isAct hchange
    refine .inl ?_
    cases x <;> first | exact List.nil_subset _ | cases hisAct

/-- All that is known of when resources were made is true. -/
structure Machine.Dated (trace : List Deed) (m : Machine) : Prop where
  pools : ∀ i p, m.pool? i = some p → p.records ⊆ births trace i
  tasks : ∀ id task, m.tasks.get? id = some task → task.phase.records ⊆ births trace task.pool

theorem Machine.FreeRun.dated (h : FreeRun trace m) : m.Dated trace := by
  induction h with
  | idle server =>
      exact ⟨fun _ p hp => absurd hp.symm (Option.some_ne_none p),
        fun _ task htask => absurd htask.symm (Option.some_ne_none task)⟩
  | @move trace m m' d h hmove ih =>
      have hbefore : ∀ {l i}, l ⊆ births trace i → l ⊆ births (trace ++ [d]) i := by
        intro l i hl
        rw [births_append]
        exact List.Subset.trans hl (List.subset_append_left _ _)
      refine ⟨fun i p' hp' => ?_, fun id task' htask' => ?_⟩
      · cases hp : m.pool? i with
        | none =>
            obtain ⟨-, config, policy, recycling, rfl⟩ := hmove.of_pool?_none hp hp'
            exact List.nil_subset _
        | some p =>
            cases hp'.symm.trans (hmove.pool? hp)
            obtain ⟨-, heq⟩ | ⟨x, hchange, heq⟩ := d.run_cases i p <;> rw [heq]
            · exact hbefore (ih.pools i p hp)
            · obtain ⟨hsound, hready⟩ := h.section_of_move hmove hp hchange
              refine List.Subset.trans (Section.continues hsound hready).records
                (List.append_subset.2 ⟨?_, hbefore (ih.pools i p hp)⟩)
              obtain hbirths | ⟨id, task, htask, rfl, hbrings⟩ := hmove.brings hp hchange
              · rw [births_append]
                exact List.Subset.trans hbirths (List.subset_append_right _ _)
              · exact hbefore (List.Subset.trans hbrings (ih.tasks id task htask))
      · obtain ⟨task, htask, hpool, hphase⟩ | ⟨task, site, htask, -, hpool, hturn⟩ |
          ⟨task, -, hunwind⟩ | ⟨-, -, hnew, hordered⟩ := hmove.origin h.ledger.toOrderly htask'
        · rw [hpool, hphase]
          exact hbefore (ih.tasks id task htask)
        · rw [hpool]
          exact hbefore (List.Subset.trans (hturn.records rfl htask htask')
            (ih.tasks id task htask))
        · rw [hunwind, records_unwind]
          exact List.nil_subset _
        · obtain ⟨p, hp, hrecords⟩ := hordered.records hnew
          exact hbefore (List.Subset.trans hrecords (ih.pools _ p hp))
  | switch h runtime now ih => exact ⟨ih.pools, ih.tasks⟩

/-! ## Returns -/

theorem Pool.Offers.mem_holdings {r : Nat × Connection} (h : p.Offers r) :
    ∃ place, place ≠ .destruction ∧ ⟨place, (r.1, r.2.number)⟩ ∈ p.holdings := by
  have hwaits : ∀ {y : Holding} {action : Action Connection}, action ∈ p.outbox →
      y ∈ action.holdings → y ∈ p.holdings := fun haction hy =>
    List.mem_append_right _ (List.mem_append_left _ (List.mem_flatMap.2 ⟨_, haction, hy⟩))
  obtain ⟨x, hx, rfl⟩ | ⟨x, hx, rfl⟩ | ⟨call, l, hl, rfl⟩ := h
  · exact ⟨.shelf, nofun, List.mem_append_left _ (List.mem_map.2 ⟨x, hx, rfl⟩)⟩
  · exact ⟨.validation, nofun, hwaits hx (List.mem_singleton_self _)⟩
  · exact ⟨.lease, nofun, hwaits hl (List.mem_singleton_self _)⟩

namespace Machine

variable {s : Section Connection} {now : Instant} {sample age : Duration} {l : Lease Connection}

/-- The resource is to be destroyed and the pool stays at its minimum; inside a runtime the factory
can always go on to destroy it. -/
def IsRecycled (m : Machine) (i : Nat) (x : Nat × Nat) : Prop :=
  ⟨.destruction, x⟩ ∈ m.holdings i ∧ (∃ p, m.pool? i = some p ∧ p.config.min ≤ p.size) ∧
    (m.runtime = true → ∃ t m', Path m t m' ∧ x ∈ destroyed t i)

/-- The resource is on the shelf, or it goes at once to a caller, if any has waited. -/
def IsKept (m : Machine) (i : Nat) (p : Pool Connection) (x : Nat × Nat) : Prop :=
  ∃ place, place ≠ .destruction ∧ ⟨place, x⟩ ∈ m.holdings i ∧
    (p.waiting.length = 0 → place = .shelf)

/-- What becomes of a resource that comes back at an age. -/
structure DecidesByAge (m : Machine) (i : Nat) (p : Pool Connection) (sample age : Duration)
    (x : Nat × Nat) : Prop where
  /-- It is one too many and has reached the limit less the sample, which is at most the jitter. -/
  due : p.config.min < p.size → ∀ c t, p.recycling = some c → c.timeout = some t →
    t - min sample c.jitter ≤ age → m.IsRecycled i x
  spared : (p.size ≤ p.config.min ∨ ∀ c t, p.recycling = some c → c.timeout = some t →
    age < t - min sample c.jitter) → m.IsKept i p x
  /-- Whatever the sample is. -/
  old : p.config.min < p.size → ∀ c t, p.recycling = some c → c.timeout = some t →
    t ≤ age → m.IsRecycled i x
  young : (p.size ≤ p.config.min ∨ NeverDue p.recycling ∨
    ∃ c t, p.recycling = some c ∧ c.timeout = some t ∧ age < t - c.jitter) → m.IsKept i p x

/-- The rule by which pools recycle says what becomes of the resource. -/
theorem decidesByAge {x : Nat × Nat} {sample age : Duration}
    (h : (p.recycles sample age = true ∧ m.IsRecycled i x) ∨
      (p.recycles sample age = false ∧ m.IsKept i p x)) : m.DecidesByAge i p sample age x := by
  have hdue : p.recycles sample age = true → m.IsRecycled i x := fun hrecycles =>
    h.elim And.right fun h => absurd (hrecycles.symm.trans h.1) Bool.true_eq_false_eq_False
  have hkeep : ¬ p.recycles sample age = true → m.IsKept i p x := fun hrecycles =>
    h.elim (fun h => absurd h.1 hrecycles) And.right
  rw [Pool.recycles_iff] at hdue hkeep
  have hspared : (p.size ≤ p.config.min ∨ ∀ c t, p.recycling = some c → c.timeout = some t →
      age < t - min sample c.jitter) → m.IsKept i p x := by
    refine fun hcase => hkeep ?_
    rintro ⟨hsize, c, t, hc, ht, hage⟩
    exact hcase.elim (absurd hsize ·.not_gt) fun hyoung => absurd hage (hyoung c t hc ht).not_ge
  refine ⟨fun hsize c t hc ht hage => hdue ⟨hsize, c, t, hc, ht, hage⟩, hspared,
    fun hsize c t hc ht hage => hdue ⟨hsize, c, t, hc, ht, (Nat.sub_le t _).trans hage⟩, ?_⟩
  rintro (hsize | hnever | ⟨c, t, hc, ht, hage⟩)
  · exact hspared (.inl hsize)
  · refine hspared (.inr fun c t hc ht => ?_)
    cases (hnever c hc).symm.trans ht
  · refine hspared (.inr fun c' t' hc' ht' => ?_)
    cases hc.symm.trans hc'
    cases ht.symm.trans ht'
    exact hage.trans_le (Nat.sub_le_sub_left (min_le_right _ _) t)

end Machine

variable {s : Section Connection} {now : Instant} {sample age : Duration} {l : Lease Connection}

theorem Turn.now_of_takesBack (h : Turn m id task site phase d s')
    (hchange : d.change = some (i, s)) (hback : s.TakesBack p now sample l) : now = m.now := by
  cases h <;> cases hchange <;> cases hback <;> rfl

theorem Act.now_of_takesBack (h : Act m d s') (hchange : d.change = some (i, s))
    (hback : s.TakesBack p now sample l) : now = m.now := by
  cases h with
  | stop =>
      rw [stopDeed] at hchange
      split at hchange <;> cases hchange
  | _ => cases hchange <;> cases hback <;> rfl

/-- One who has to destroy what he gave back goes on to do it. -/
theorem Turn.of_giveBack {x : Pooled Connection} (h : Turn m id task site phase d s')
    (htask : m.tasks.get? id = some task) (hchange : d.change = some (i, .giveBack now sample l))
    (hback : (site.pool.giveBack now sample l).1 = .ok (some x)) :
    ∃ outcome, s'.tasks.get? id = some { task with phase := .destroy x outcome } := by
  cases h with
  | giveBack _ heq | giveBackRefused _ heq =>
      cases hchange
      cases (congrArg Prod.fst heq).symm.trans hback
  | recycle _ heq =>
      cases hchange
      cases (congrArg Prod.fst heq).symm.trans hback
      exact ⟨_, Scene.get?_go_self htask _⟩
  | _ => cases hchange

namespace Machine

theorem Move.now_of_takesBack (h : Move m d m') (hchange : d.change = some (i, s))
    (hback : s.TakesBack p now sample l) : now = m.now := by
  obtain ⟨id, task, site, -, -, hturn⟩ | hact := h.cases
  · exact hturn.now_of_takesBack hchange hback
  · exact hact.now_of_takesBack hchange hback

/-- A resource that a section recycles is about to be destroyed. -/
theorem Move.destruction_of_recycles (h : Move m d m') (hp : m.pool? i = some p)
    (hchange : d.change = some (i, s)) (hrecycles : s.Recycles p l) :
    ⟨.destruction, l.mark⟩ ∈ m'.holdings i := by
  obtain ⟨x, hx, hdestroys⟩ := hrecycles
  have hmark : x.mark = l.mark := congrArg (fun r : Nat × Connection => (r.1, r.2.number)) hx
  rw [← hmark]
  obtain hposted | ⟨now, sample, rfl, hback⟩ := hdestroys
  · refine mem_holdings_of_pool (h.pool? hp) ?_
    rw [Deed.run_of_change hchange]
    have hwaits := Pool.destruction_mem hposted
    exact hwaits
  · obtain ⟨id, task, site, htask, hsite, hturn⟩ | hact := h.cases
    · have hpool : task.pool = i := by
        generalize m'.scene = s' at hturn
        generalize task.phase = phase at hturn
        cases hturn <;> cases hchange <;> rfl
      subst hpool
      cases (pool?_of_site hsite).symm.trans hp
      obtain ⟨outcome, htask'⟩ := hturn.of_giveBack htask hchange hback
      exact mem_holdings_of_task (m := m') htask' (List.mem_singleton_self _)
    · exact absurd (hact.isAct hchange) Bool.false_ne_true

/-- A lease that comes back is recycled or kept by its age, which counts from the time when the
resource was made. -/
theorem FreeRun.returned (h : FreeRun trace m) (hmove : Move m d m') (hp : m.pool? i = some p)
    (hchange : d.change = some (i, s)) (hback : s.TakesBack p now sample l) :
    ∃ born, (l.id, born) ∈ births trace i ∧
      ((p.recycles sample (Instant.since m.now born) = true ∧ m'.IsRecycled i l.mark) ∨
        (p.recycles sample (Instant.since m.now born) = false ∧ m'.IsKept i p l.mark)) := by
  obtain ⟨hsound, hready⟩ := h.section_of_move hmove hp hchange
  obtain rfl := hmove.now_of_takesBack hchange hback
  obtain ⟨loan, hloan, hcases⟩ := hback.cases hsound hready
  have hp' := hmove.pool? hp
  rw [Deed.run_of_change hchange] at hp'
  refine ⟨loan.createdAt, ?_, hcases.imp ?_ ?_⟩
  · refine h.dated.pools i p hp (Pool.mem_records.2 (.inr (.inr ⟨loan, ?_, rfl⟩)))
    exact Registry.mem_entries_of_get? hloan
  · rintro ⟨hdue, hrecycles, hsize⟩
    have hplace := hmove.destruction_of_recycles hp hchange hrecycles
    refine ⟨hdue, hplace, ⟨_, hp', ?_⟩, fun hruntime => (h.move hmove).can_destroy hruntime hplace⟩
    rw [(Section.frame p s).config]
    exact hsize
  · rintro ⟨hkeep, hoffers, hshelf⟩
    refine ⟨hkeep, ?_⟩
    by_cases hzero : p.waiting.length = 0
    · obtain ⟨x, hx, hitem⟩ := hshelf hzero
      have hmark : x.mark = l.mark := congrArg (fun r : Nat × Connection => (r.1, r.2.number)) hitem
      refine ⟨.shelf, nofun, mem_holdings_of_pool hp' ?_, fun _ => rfl⟩
      exact List.mem_append_left _ (List.mem_map.2 ⟨x, hx, by rw [hmark]⟩)
    · obtain ⟨place, hplace, hmem⟩ := hoffers.mem_holdings
      exact ⟨place, hplace, mem_holdings_of_pool hp' hmem, fun h => absurd h hzero⟩

/-- A task that gives a lease back to its lender, or lets it go, brings it back. -/
theorem FreeRun.brings_back (h : FreeRun trace m) {o : Outcome}
    (hsite : m.sites[task.pool]? = some site)
    (hphase : task.phase = .giveBack l o ∧ l.pool = task.pool ∨ task.phase = .letGo l o) :
    ∃ s, (m.deed id task site).change = some (l.pool, s) ∧
      ∀ p, s.TakesBack p m.now m.sample l := by
  obtain ⟨hphase, hown⟩ | hphase := hphase
  · have hid := (h.ledger.placed _ _ (pools_of_site hsite)).id
    refine ⟨.giveBack m.now m.sample l, ?_, fun p => .giveBack⟩
    rw [deed, hphase]
    simp only
    rw [if_pos (hown.trans hid.symm), hown]
  · refine ⟨.reclaim m.now m.sample l, ?_, fun p => .reclaim⟩
    rw [deed, hphase]

/-- A run goes the same way when age limits that recycle nothing are exchanged for others that
recycle nothing. -/
theorem FreeRun.recode {f : Nat → Option RecyclingConfig → Option RecyclingConfig}
    (hf : Immaterial f) (h : FreeRun trace m) :
    FreeRun (trace.map (Deed.recode f)) (m.recode f) := by
  induction h with
  | idle server => exact .idle server
  | move h hmove ih =>
      have hids (i : Nat) (site : Site) (hsite : _ = some site) : site.pool.id = i :=
        (h.ledger.placed i site.pool (pools_of_site hsite)).id
      rw [List.map_append]
      exact ih.move (hmove.recode hf hids)
  | switch h runtime now ih => exact ih.switch runtime now

/-- In every run, and whichever way a lease comes back: the age of the resource counts from the one
time when it was made, and decides alone whether it is recycled, unless the pool is at its minimum.
Pools whose age limits recycle nothing, those that they are given on the way included, have the
runs of pools that have none. -/
theorem recycling_by_age (h : FreeRun trace m) :
    (∀ id task site l o, m.sites[task.pool]? = some site →
      (task.phase = .giveBack l o ∧ l.pool = task.pool ∨ task.phase = .letGo l o) →
      ∃ s, (m.deed id task site).change = some (l.pool, s) ∧
        ∀ p, s.TakesBack p m.now m.sample l) ∧
    (∀ d m' i p s now sample l, Move m d m' → m.pool? i = some p → d.change = some (i, s) →
      s.TakesBack p now sample l → now = m.now ∧
        ∃ born, (∀ other, (l.id, other) ∈ births trace i ↔ other = born) ∧
          m'.DecidesByAge i p sample (Instant.since m.now born) l.mark) ∧
    ∀ f, Immaterial f → FreeRun (trace.map (Deed.recode f)) (m.recode f) := by
  refine ⟨fun id task site l o => h.brings_back,
    fun d m' i p s now sample l hmove hp hchange hback => ?_, fun f hf => h.recode hf⟩
  obtain ⟨born, hborn, hdecision⟩ := h.returned hmove hp hchange hback
  refine ⟨hmove.now_of_takesBack hchange hback, born, fun other => ⟨?_, ?_⟩,
    decidesByAge hdecision⟩
  · exact h.birth_unique hborn
  · rintro rfl
    exact hborn

/-- A pool that recycles resources of five nanoseconds or more, less up to two. -/
def recyclingPool : Site where
  pool := .idle 0 { max := 1 } .standard (some ⟨some 5, 2⟩)
  factory := {}

/-- A resource is lent, and comes back when four nanoseconds have passed. -/
def lentLong : List Choice :=
  [.begin (.acquire 0 "a" 0), .part 0, .perform 0, .part 1, .part 1, .perform 0, .part 0,
    .sleep 4, .begin (.release 0 "a")]

/-- The machine when it is to come back, and the next sample is one nanosecond. -/
def agedMachine : Machine :=
  { ((({ server := .echo 0, sites := [recyclingPool] } : Machine).follow lentLong).2) with
    samples := [1] }

/-- The lease that comes back. -/
def agedLease : Lease Connection := ⟨0, 1, ⟨1, true⟩, 0⟩

/-- The task that gives it back. -/
def agedTask : Task := ⟨0, some ("release " ++ "a"), .giveBack agedLease .done, false⟩

theorem recycling_by_age_agedMachine : ∃ trace d m', FreeRun trace agedMachine ∧
    Move agedMachine d m' ∧ d.change = some (0, .giveBack 4 1 agedLease) ∧
    m'.IsRecycled 0 (1, 1) ∧
    FreeRun (trace.map (Deed.recode omitNeverDue)) (agedMachine.recode omitNeverDue) := by
  obtain ⟨trace, hrun, hbirths⟩ : ∃ trace, FreeRun trace agedMachine ∧
      births trace 0 = [(1, 0)] := by
    have hbuilt := (FreeRun.idle (.echo 0)).move
      (.build { max := 1 } .standard (some ⟨some 5, 2⟩) {})
    exact ⟨_, (hbuilt.path (path_follow _ lentLong)).move
      (.elapse ⟨rfl, rfl, rfl, rfl, rfl, rfl, rfl, le_rfl, rfl⟩), rfl⟩
  have htask : agedMachine.tasks.get? 2 = some agedTask := rfl
  have hnow : agedMachine.now = 4 := rfl
  obtain ⟨site, hsite, hchange⟩ : ∃ site, agedMachine.sites[0]? = some site ∧
      (agedMachine.deed 2 agedTask site).change = some (0, .giveBack 4 1 agedLease) :=
    ⟨_, rfl, rfl⟩
  obtain ⟨p, hp, hsize, hlimit⟩ : ∃ p, agedMachine.pool? 0 = some p ∧ p.config.min < p.size ∧
      p.recycling = some ⟨some 5, 2⟩ := ⟨_, rfl, by decide, rfl⟩
  have hmove := Move.part htask hsite
  obtain ⟨-, hreturns, hplain⟩ := recycling_by_age hrun
  obtain ⟨-, born, hborn, hdecision⟩ :=
    hreturns _ _ 0 p _ 4 1 agedLease hmove hp hchange .giveBack
  obtain rfl : 0 = born := (hborn 0).1 (by rw [hbirths]; exact List.mem_cons_self)
  refine ⟨trace, _, _, hrun, hmove, hchange, ?_, hplain _ immaterial_omitNeverDue⟩
  -- the limit of five less the sample of one is reached
  refine hdecision.due hsize _ 5 hlimit rfl ?_
  rw [hnow]
  decide

end Machine

end PooledSql
