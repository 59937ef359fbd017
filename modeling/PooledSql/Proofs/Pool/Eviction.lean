import PooledSql.Proofs.Collections.Tour
import PooledSql.Proofs.Pool.Minimum

/-!
# Eviction runs

An eviction run is a loop that goes round the available resources with the cursor of the last run.
The cursor may be at its end, or the node that it was about to visit may have gone; then it is
reset, which is not counted as a test. `EvictionRun.step` is one turn of the loop, with a policy
that may remember what it was asked. One test takes the tour a step on (`Tested`), and a run does
so as often as it tests (`Inspection`).
-/

namespace PooledSql

variable {ρ : Type}

/-- A resource that an eviction run came to, how many were available then, and whether it was
given up. -/
structure Examination (ρ : Type) where
  handle : Handle
  pooled : Pooled ρ
  available : Nat
  evicted : Bool

def Examination.entry (e : Examination ρ) : Handle × Pooled ρ := (e.handle, e.pooled)

/-- A policy that may go by what it was asked before in the run. -/
abbrev Evictor (ρ : Type) := List (Examination ρ) → EvictionPolicy

/-- The resource that an action destroys. -/
def Action.doomed? : Action ρ → Option (Pooled ρ)
  | .destroy x => some x
  | _ => none

/-- The available resources in the order in which eviction comes to them. -/
def Pool.tour (p : Pool ρ) : List (Handle × Pooled ρ) := p.available.tour p.evictionCursor

/-- An eviction run on its way: the pool, the tests that are left and what the run has seen. -/
structure EvictionRun (ρ : Type) where
  pool : Pool ρ
  left : Nat
  log : List (Examination ρ)

namespace EvictionRun

def begin (p : Pool ρ) : EvictionRun ρ :=
  ⟨p, min p.config.testsPerEviction p.available.length, []⟩

/-- Test the resource that the cursor has come to. -/
def examine (evictor : Evictor ρ) (now : Instant) (p : Pool ρ) (left : Nat)
    (log : List (Examination ρ)) (k : Handle) : EvictionRun ρ :=
  match p.available.get? k with
  | some x =>
    let evicted := evictor log p.evictionLimits (x.idleTime now) p.available.length
    ⟨if evicted then p.evictVisited else p, left, log ++ [⟨k, x, p.available.length, evicted⟩]⟩
  | none => ⟨p, left, log⟩

/-- One turn of the loop, unless it has ended. A cursor that is at its end is reset; the run breaks
off when there is nothing to come to. -/
def step (evictor : Evictor ρ) (now : Instant) (run : EvictionRun ρ) : Option (EvictionRun ρ) :=
  match run.left with
  | 0 => none
  | left + 1 =>
    match run.pool.evictionCursor.next run.pool.available with
    | (some k, cursor) =>
      some (examine evictor now { run.pool with evictionCursor := cursor } left run.log k)
    | (none, cursor) =>
      some { run with
        pool := { run.pool with evictionCursor := cursor.reset run.pool.available }
        left := if run.pool.available.isEmpty then 0 else left + 1 }

/-- Turns of the loop, one after the other. -/
abbrev Turns (evictor : Evictor ρ) (now : Instant) : EvictionRun ρ → EvictionRun ρ → Prop :=
  Relation.ReflTransGen fun run run' => run.step evictor now = some run'

/-- The loop comes to its end. -/
def Ends (evictor : Evictor ρ) (now : Instant) (run run' : EvictionRun ρ) : Prop :=
  Turns evictor now run run' ∧ run'.step evictor now = none

end EvictionRun

namespace Pool

variable {p p' : Pool ρ} {k : Handle} {x : Pooled ρ} {evictor : Evictor ρ} {now : Instant}
variable {log exams : List (Examination ρ)} {tests : Nat} {evicted : Bool}

/-! ## One test -/

/-- What a test does. The resource goes to the end of the tour, or is destroyed. -/
structure Tested (p : Pool ρ) (k : Handle) (x : Pooled ρ) (evicted : Bool) (p' : Pool ρ) :
    Prop where
  wf : p'.available.Wf
  config : p'.config = p.config
  policy : p'.policy = p.policy
  length : p'.available.length + evicted.toNat = p.available.length
  tour : ∃ rest, p.tour = (k, x) :: rest ∧ p'.tour = rest ++ if evicted then [] else [(k, x)]
  entries : p'.available.entries =
    p.available.entries.filter fun entry => !(evicted && entry.1 == k)
  outbox : ∃ posted, p'.outbox = p.outbox ++ posted ∧
    posted.filterMap Action.doomed? = if evicted then [x.condemn] else []

/-- The pool is filled up behind a destruction. -/
theorem outbox_retire (p : Pool ρ) (x : Pooled ρ) : ∃ count,
    (p.retire x).outbox = p.outbox ++ (.destroy x.condemn :: List.replicate count .create) := by
  rw [retire, ensureMinimum]
  split
  · exact ⟨0, rfl⟩
  · exact ⟨_, List.append_assoc _ _ _⟩

@[simp] theorem evictionCursor_ensureMinimum (p : Pool ρ) :
    p.ensureMinimum.evictionCursor = p.evictionCursor := by
  rw [ensureMinimum]
  split <;> rfl

@[simp] theorem evictionCursor_retire (p : Pool ρ) (x : Pooled ρ) :
    (p.retire x).evictionCursor = p.evictionCursor := evictionCursor_ensureMinimum _

variable {l r : List (Handle × Pooled ρ)} {c : Cursor}

/-- The resource that the cursor visited is kept. -/
theorem tested_kept (h : p.available.Visits p.evictionCursor l k x r) :
    Tested p k x false { p with evictionCursor := ⟨r.head?.map (·.1), some k⟩ } where
  wf := h.lists.wf
  config := rfl
  policy := rfl
  length := rfl
  tour := ⟨r ++ l, h.tour, h.tour_next _⟩
  entries := by simp
  outbox := ⟨[], (List.append_nil _).symm, rfl⟩

/-- The resource that the cursor visited is destroyed. -/
theorem tested_evicted (h : p.available.Visits p.evictionCursor l k x r) :
    Tested p k x true
      ({ p with evictionCursor := ⟨r.head?.map (·.1), some k⟩ } : Pool ρ).evictVisited := by
  obtain ⟨d, hremove, hd⟩ := h.lists.remove
  have hcursor : (⟨r.head?.map (·.1), some k⟩ : Cursor).remove p.available =
      (some (x, d), ⟨r.head?.map (·.1), none⟩) := by
    simp only [Cursor.remove, Option.bind_some, hremove]
  have heq : ({ p with evictionCursor := ⟨r.head?.map (·.1), some k⟩ } : Pool ρ).evictVisited =
      ({ p with
        available := d
        evictionCursor := ⟨r.head?.map (·.1), none⟩
        metrics := { p.metrics with evictions := p.metrics.evictions + 1 } } :
          Pool ρ).retire x := by
    simp only [evictVisited, hcursor]
  have halike := alike_retire ({ p with
    available := d
    evictionCursor := ⟨r.head?.map (·.1), none⟩
    metrics := { p.metrics with evictions := p.metrics.evictions + 1 } } : Pool ρ) x
  obtain ⟨count, houtbox⟩ := outbox_retire ({ p with
    available := d
    evictionCursor := ⟨r.head?.map (·.1), none⟩
    metrics := { p.metrics with evictions := p.metrics.evictions + 1 } } : Pool ρ) x
  rw [heq]
  refine ⟨?_, ?_, halike.policy, ?_, ⟨r ++ l, h.tour, ?_⟩, ?_, ⟨_, houtbox, ?_⟩⟩
  · rw [available_retire]
    exact hd.wf
  · exact halike.config
  · rw [available_retire, hd.length, h.lists.length]
    simp [Nat.add_assoc]
  · rw [Pool.tour, available_retire, evictionCursor_retire, if_pos rfl, List.append_nil]
    exact hd.tour_removed none
  · rw [available_retire, hd.entries, h.lists.entries]
    exact (filter_ne_of_nodup h.lists.nodup_fst).symm
  · rw [List.filterMap_cons, List.filterMap_replicate_of_none rfl]
    rfl

theorem tested (h : p.available.Visits p.evictionCursor l k x r) (evicted : Bool) :
    Tested p k x evicted
      (if evicted then
        ({ p with evictionCursor := ⟨r.head?.map (·.1), some k⟩ } : Pool ρ).evictVisited
      else { p with evictionCursor := ⟨r.head?.map (·.1), some k⟩ }) := by
  cases evicted with
  | true => exact tested_evicted h
  | false => exact tested_kept h

/-! ## A run -/

/-- What a run of some tests does, after those of a log. -/
structure Inspection (evictor : Evictor ρ) (now : Instant) (p : Pool ρ) (tests : Nat)
    (log exams : List (Examination ρ)) (p' : Pool ρ) : Prop where
  wf : p'.available.Wf
  config : p'.config = p.config
  /-- The resources are tested in the order of the tour. -/
  examined : exams.map Examination.entry = p.tour.take tests
  /-- One is given up if the policy says so for the number of those that are available then. -/
  asked : ∀ before e after, exams = before ++ e :: after →
    e.evicted = evictor (log ++ before) p.evictionLimits (e.pooled.idleTime now) e.available ∧
      e.available + before.countP (·.evicted) = p.available.length
  available : p'.available.length + exams.countP (·.evicted) = p.available.length
  /-- Those that are given up leave, and the others keep their order. -/
  rest : p'.available.entries =
    p.available.entries.filter fun entry => !exams.any fun e => e.evicted && entry.1 == e.handle
  /-- Those that are given up are destroyed. -/
  destroyed : ∃ posted, p'.outbox = p.outbox ++ posted ∧
    posted.filterMap Action.doomed? = (exams.filter (·.evicted)).map (·.pooled.condemn)
  /-- The next run goes on from where this one stopped. -/
  turn : p'.tour = p.tour.drop tests ++ (exams.filter (!·.evicted)).map Examination.entry

theorem inspection_zero (hwf : p.available.Wf) : Inspection evictor now p 0 log [] p where
  wf := hwf
  config := rfl
  examined := rfl
  asked before e after h := by
    have hlength := congrArg List.length h
    simp at hlength
  available := rfl
  rest := by simp
  destroyed := ⟨[], (List.append_nil _).symm, rfl⟩
  turn := (List.append_nil _).symm

/-- One test and then others. -/
theorem Tested.inspection {p'' : Pool ρ} (h : Tested p k x evicted p')
    (hasked : evicted = evictor log p.evictionLimits (x.idleTime now) p.available.length)
    (htests : tests < p.tour.length)
    (hrest : Inspection evictor now p' tests (log ++ [⟨k, x, p.available.length, evicted⟩])
      exams p'') :
    Inspection evictor now p (tests + 1) log (⟨k, x, p.available.length, evicted⟩ :: exams)
      p'' := by
  obtain ⟨rest, htour, htour'⟩ := h.tour
  have hlength : tests ≤ rest.length := by
    rw [htour] at htests
    exact Nat.le_of_lt_succ htests
  refine ⟨hrest.wf, hrest.config.trans h.config, ?_, ?_, ?_, ?_, ?_, ?_⟩
  · rw [List.map_cons, hrest.examined, htour, htour', List.take_succ_cons,
      List.take_append_of_le_length hlength]
    rfl
  · rintro before e after heq
    cases before with
    | nil =>
        obtain ⟨rfl, -⟩ := List.cons.inj heq
        rw [List.append_nil]
        exact ⟨hasked, rfl⟩
    | cons first before =>
        obtain ⟨rfl, htail⟩ := List.cons.inj heq
        obtain ⟨hanswer, hcount⟩ := hrest.asked before e after htail
        rw [List.append_assoc, evictionLimits, h.config] at hanswer
        refine ⟨hanswer, ?_⟩
        rw [List.countP_cons, ← h.length, ← hcount]
        cases evicted <;> simp [Nat.add_assoc]
  · rw [List.countP_cons, ← h.length, ← hrest.available]
    cases evicted <;> simp [Nat.add_assoc]
  · rw [hrest.rest, h.entries, List.filter_filter]
    refine List.filter_congr fun entry _ => ?_
    rw [List.any_cons, Bool.not_or, Bool.and_comm]
  · obtain ⟨first, hfirst, hdoomed⟩ := h.outbox
    obtain ⟨posted, hposted, hdoomed'⟩ := hrest.destroyed
    refine ⟨first ++ posted, by rw [hposted, hfirst, List.append_assoc], ?_⟩
    rw [List.filterMap_append, hdoomed, hdoomed']
    cases evicted <;> rfl
  · rw [hrest.turn, htour, htour', List.drop_succ_cons, List.drop_append_of_le_length hlength,
      List.append_assoc]
    cases evicted <;> rfl

theorem length_tour (hwf : p.available.Wf) : p.tour.length = p.available.length := by
  rw [Pool.tour, (Deque.tour_isRotated _ _).perm.length_eq]
  exact hwf.lists.length.symm

open EvictionRun in
/-- The cursor comes to a node in one turn of the loop or in two. -/
theorem turns_visits (h : p.available.Visits p.evictionCursor l k x r) (evictor : Evictor ρ)
    (now : Instant) (left : Nat) (log : List (Examination ρ)) :
    Turns evictor now ⟨p, left + 1, log⟩ (examine evictor now
      { p with evictionCursor := ⟨r.head?.map (·.1), some k⟩ } left log k) := by
  obtain hnext | ⟨c', hnext, hreset⟩ := h.next
  · refine .single ?_
    simp only [step, hnext]
  · -- the cursor is at its end, so this turn only resets it
    have hempty : p.available.isEmpty = false := by
      rw [Deque.isEmpty, h.lists.length]
      simp
    have hturn : step evictor now ⟨p, left + 1, log⟩ =
        some ⟨{ p with evictionCursor := c'.reset p.available }, left + 1, log⟩ := by
      simp [step, hnext, hempty]
    refine .head hturn (.single ?_)
    simp only [step, hreset]

/-- A test by the policy of the pool. -/
theorem evictSome_visits (h : p.available.Visits p.evictionCursor l k x r) (evicted : Bool)
    (now : Instant) (count : Nat)
    (hasked : evicted = p.policy p.evictionLimits (x.idleTime now) p.available.length) :
    p.evictSome now (count + 1) =
      (if evicted then
        ({ p with evictionCursor := ⟨r.head?.map (·.1), some k⟩ } : Pool ρ).evictVisited
      else { p with evictionCursor := ⟨r.head?.map (·.1), some k⟩ }).evictSome now count := by
  have hnext : p.nextTested = (some k, ⟨r.head?.map (·.1), some k⟩) := by
    obtain hnext | ⟨c', hnext, hreset⟩ := h.next
    · simp only [nextTested, hnext]
    · simp only [nextTested, hnext, hreset]
  have hget : p.available.get? k = some x := by
    rw [Deque.get?, h.lists.nodeOf?]
    rfl
  simp only [evictSome, hnext, isEvicted, hget]
  rw [hasked]
  rfl

open EvictionRun in
/-- The loop comes to its end after as many tests as there were to make. -/
theorem exists_inspection (evictor : Evictor ρ) (now : Instant) (left : Nat) (p : Pool ρ)
    (log : List (Examination ρ)) (hwf : p.available.Wf) (hleft : left ≤ p.available.length) :
    ∃ exams p', Ends evictor now ⟨p, left, log⟩ ⟨p', 0, log ++ exams⟩ ∧
      Inspection evictor now p left log exams p' ∧
      ((∀ log, evictor log = p.policy) → p' = p.evictSome now left) := by
  induction left generalizing p log with
  | zero =>
      refine ⟨[], p, ⟨?_, rfl⟩, inspection_zero hwf, fun _ => rfl⟩
      rw [List.append_nil]
  | succ left ih =>
      obtain ⟨l, k, x, r, hvisits⟩ :=
        hwf.exists_visits p.evictionCursor (Nat.zero_lt_of_lt hleft)
      have hget : p.available.get? k = some x := by
        rw [Deque.get?, hvisits.lists.nodeOf?]
        rfl
      obtain ⟨evicted, hasked⟩ : ∃ evicted, evicted =
        evictor log p.evictionLimits (x.idleTime now) p.available.length := ⟨_, rfl⟩
      have htested := tested hvisits evicted
      have hpolicy := evictSome_visits hvisits evicted now left
      have hexamine : examine evictor now
          { p with evictionCursor := ⟨r.head?.map (·.1), some k⟩ } left log k =
          ⟨if evicted then
              ({ p with evictionCursor := ⟨r.head?.map (·.1), some k⟩ } : Pool ρ).evictVisited
            else { p with evictionCursor := ⟨r.head?.map (·.1), some k⟩ },
            left, log ++ [⟨k, x, p.available.length, evicted⟩]⟩ := by
        simp only [examine, hget]
        rw [hasked]
        rfl
      have hturns := turns_visits hvisits evictor now left log
      rw [hexamine] at hturns
      generalize (if evicted then _ else _ : Pool ρ) = p₁ at htested hturns hpolicy
      -- a test takes one resource at most, so there are enough for the tests that are left
      have hlength := htested.length
      have hone := Bool.toNat_le evicted
      obtain ⟨exams, p', hends, hinspection, hmemoryless⟩ :=
        ih p₁ (log ++ [⟨k, x, p.available.length, evicted⟩]) htested.wf (by omega)
      rw [List.append_assoc] at hends
      refine ⟨_ :: exams, p', ⟨hturns.trans hends.1, rfl⟩,
        htested.inspection hasked ((length_tour hwf).symm ▸ hleft) hinspection, fun h => ?_⟩
      rw [hpolicy (h log ▸ hasked)]
      exact hmemoryless fun log => (h log).trans htested.policy.symm

/-- An eviction run comes to its end, whatever the policy. -/
theorem exists_ends (hwf : p.available.Wf) (evictor : Evictor ρ) (now : Instant) :
    ∃ run, EvictionRun.Ends evictor now (.begin p) run ∧
      Inspection evictor now p (min p.config.testsPerEviction p.available.length) [] run.log
        run.pool ∧
      ((∀ log, evictor log = p.policy) → run.pool = p.evict now) := by
  obtain ⟨exams, p', hends, hinspection, hmemoryless⟩ :=
    exists_inspection evictor now _ p [] hwf (Nat.min_le_right _ _)
  exact ⟨_, hends, hinspection, hmemoryless⟩

/-! ## What a run tests -/

namespace Inspection

/-- As many tests are made as were to be made. -/
theorem length (h : Inspection evictor now p tests log exams p')
    (htests : tests ≤ p.tour.length) : exams.length = tests := by
  have hlength := congrArg List.length h.examined
  rw [List.length_map, List.length_take, min_eq_left htests] at hlength
  exact hlength

/-- No resource is tested twice. -/
theorem nodup (h : Inspection evictor now p tests log exams p') (hwf : p.available.Wf) :
    (exams.map (·.handle)).Nodup := by
  have hhandles : exams.map (·.handle) = (p.tour.take tests).map (·.1) := by
    rw [← h.examined, List.map_map]
    rfl
  rw [hhandles]
  have htour := ((Deque.tour_isRotated p.available p.evictionCursor).perm.map (·.1)).nodup_iff
  exact (htour.2 hwf.lists.nodup_fst).sublist ((List.take_sublist _ _).map _)

/-- What was tested was available. -/
theorem mem_available {e : Examination ρ} (h : Inspection evictor now p tests log exams p')
    (he : e ∈ exams) : e.pooled ∈ p.available.toList := by
  have hentry := List.mem_map_of_mem (f := Examination.entry) he
  rw [h.examined] at hentry
  have htour := (Deque.tour_isRotated p.available p.evictionCursor).perm.mem_iff.1
    (List.mem_of_mem_take hentry)
  exact List.mem_map.2 ⟨e.entry, htour, rfl⟩

end Inspection

end Pool

/-- Before the hard limit the standard policy gives up a resource only above the minimum. -/
theorem EvictionPolicy.min_lt_of_standard {limits : EvictionLimits} {idle : Duration} {n : Nat}
    (h : standard limits idle n = true) (hidle : idle ≤ limits.hard) : limits.min < n := by
  rw [standard, Bool.or_eq_true, decide_eq_true_eq] at h
  obtain h | h := h
  · rw [softExpired] at h
    split at h
    · exact (of_decide_eq_true h).2.2
    · cases h
  · exact absurd hidle (not_le.2 h)

namespace Pool

variable {p p' : Pool ρ} {evictor : Evictor ρ} {now : Instant} {tests : Nat}
variable {log exams : List (Examination ρ)}

/-- As long as no resource is beyond the hard limit, the standard policy leaves the minimum, or
what there was. -/
theorem Inspection.min_le (h : Inspection evictor now p tests log exams p')
    (hstandard : ∀ log, evictor log = .standard)
    (hidle : ∀ x ∈ p.available.toList, x.idleTime now ≤ p.config.idleTimeout) :
    min p.config.min p.available.length ≤ p'.available.length := by
  have hprefix : ∀ before after, exams = before ++ after →
      min p.config.min p.available.length + before.countP (·.evicted) ≤ p.available.length := by
    intro before
    induction before using List.reverseRecOn with
    | nil => exact fun after _ => Nat.min_le_right _ _
    | append_singleton before e ih =>
        intro after hexams
        rw [List.append_assoc, List.singleton_append] at hexams
        have hbefore := ih _ hexams
        obtain ⟨hanswer, hcount⟩ := h.asked before e after hexams
        rw [List.countP_append, List.countP_singleton]
        split
        · rename_i hevicted
          rw [hstandard, hevicted] at hanswer
          have hlt := EvictionPolicy.min_lt_of_standard hanswer.symm
            (hidle _ (h.mem_available (by simp [hexams])))
          change p.config.min < e.available at hlt
          omega
        · exact hbefore
  have hall := hprefix exams [] (List.append_nil _).symm
  have := h.available
  omega

/-! ## Between two runs -/

@[simp] theorem evictionCursor_lend (p : Pool ρ) (now : Instant) (x : Pooled ρ) :
    (p.lend now x).evictionCursor = p.evictionCursor := by
  rw [lend]
  split <;> rfl

theorem Dispatching.evictionCursor_eq (h : Dispatching now p p') :
    p'.evictionCursor = p.evictionCursor := by
  cases h with
  | lend shift => exact evictionCursor_lend _ now _
  | _ => rfl

theorem Dispatchings.evictionCursor_eq (h : Dispatchings now p p') :
    p'.evictionCursor = p.evictionCursor := by
  induction h with
  | refl => rfl
  | tail _ hlast ih => exact hlast.evictionCursor_eq.trans ih

@[simp] theorem evictionCursor_dispatch (p : Pool ρ) (now : Instant) :
    (p.dispatch now).evictionCursor = p.evictionCursor :=
  (dispatchings_dispatch p now).evictionCursor_eq

@[simp] theorem evictionCursor_sweepSome (p : Pool ρ) (fuel : Nat) :
    (p.sweepSome fuel).evictionCursor = p.evictionCursor := by
  induction fuel generalizing p with
  | zero => rfl
  | succ fuel ih =>
      rw [sweepSome]
      split
      · exact (ih _).trans (evictionCursor_retire _ _)
      · rfl

@[simp] theorem evictionCursor_start (p : Pool ρ) : p.start.evictionCursor = p.evictionCursor := by
  obtain heq | ⟨-, -, heq⟩ := p.start_eq <;> rw [heq]
  exact evictionCursor_ensureMinimum _

@[simp] theorem evictionCursor_request (p : Pool ρ) (now : Instant) (call : CallId)
    (priority : Nat) : (p.request now call priority).2.evictionCursor = p.evictionCursor := by
  have hawake : (if p.started then p else p.start).evictionCursor = p.evictionCursor := by
    split
    · rfl
    · exact evictionCursor_start p
  obtain ⟨q, hq, ⟨e, h⟩ | h⟩ := request_cases p now call priority <;> rw [h] <;>
    rw [← hq] at hawake
  · exact hawake
  · exact (evictionCursor_dispatch _ now).trans hawake

@[simp] theorem evictionCursor_giveBack (p : Pool ρ) (now : Instant) (sample : Duration)
    (l : Lease ρ) : (p.giveBack now sample l).2.evictionCursor = p.evictionCursor := by
  cases hloan : p.loans.get? l.id with
  | none => rw [giveBack_of_none hloan]
  | some loan =>
      obtain heq | heq := giveBack_eq hloan now sample <;> rw [heq]
      · exact (evictionCursor_dispatch _ now).trans (evictionCursor_ensureMinimum _)
      · exact evictionCursor_dispatch _ now

@[simp] theorem evictionCursor_reclaim (p : Pool ρ) (now : Instant) (sample : Duration)
    (l : Lease ρ) : (p.reclaim now sample l).evictionCursor = p.evictionCursor := by
  obtain heq | ⟨x, heq⟩ := reclaim_eq p now sample l <;> rw [heq] <;>
    exact evictionCursor_giveBack p now sample l

end Pool

namespace Section

open Pool

/-- The section is an eviction run. -/
def evicts : Section ρ → Bool
  | .evict _ => true
  | _ => false

/-- Only eviction runs move the cursor of the eviction. -/
theorem evictionCursor_run (p : Pool ρ) {s : Section ρ} (hs : s.evicts = false) :
    (s.run p).evictionCursor = p.evictionCursor := by
  cases s with
  | start => exact evictionCursor_start p
  | request now call priority => exact evictionCursor_request p now call priority
  | withdraw handle timeout =>
      rw [run]
      obtain heq | ⟨call, waiting, calls, metrics, -, -, heq⟩ :=
        p.withdraw_cases handle timeout <;> rw [heq]
  | forget handle =>
      rw [run, Pool.forget]
      split <;> rfl
  | giveBack now sample lease => exact evictionCursor_giveBack p now sample lease
  | discard lease =>
      rw [run, Pool.discard]
      split
      · rfl
      · exact evictionCursor_ensureMinimum _
  | reclaim now sample lease => exact evictionCursor_reclaim p now sample lease
  | creationEnded now made => cases made <;> exact evictionCursor_dispatch _ now
  | validationEnded now x valid =>
      cases valid with
      | true => exact evictionCursor_lend _ now x
      | false => exact (evictionCursor_dispatch _ now).trans (evictionCursor_retire _ x)
  | evict now => cases hs
  | sweep => exact evictionCursor_sweepSome p _
  | abandon before action after => cases action <;> rfl
  | deliver now sample before call lease after =>
      obtain ⟨calls, -, hdeliver⟩ :=
        deliver_calls ({ p with outbox := before ++ after } : Pool ρ) call lease
      rw [run]
      obtain heq | heq := hdeliver <;> simp only [heq]
      exact evictionCursor_reclaim _ now sample lease
  | _ => rfl

theorem config_foldl (p : Pool ρ) (sections : List (Section ρ)) :
    (sections.foldl run p).config = p.config := by
  induction sections generalizing p with
  | nil => rfl
  | cons s rest ih =>
      rw [List.foldl_cons, ih]
      exact (frame p s).config

theorem evictionCursor_foldl (p : Pool ρ) {sections : List (Section ρ)}
    (h : ∀ s ∈ sections, s.evicts = false) :
    (sections.foldl run p).evictionCursor = p.evictionCursor := by
  induction sections generalizing p with
  | nil => rfl
  | cons s rest ih =>
      rw [List.foldl_cons, ih _ fun s' hs' => h s' (List.mem_cons_of_mem _ hs')]
      exact evictionCursor_run p (h s List.mem_cons_self)

end Section

end PooledSql
