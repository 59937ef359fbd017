import PooledSql.Proofs.Pool.Precedence
import PooledSql.Proofs.Simulation.Schedule
import PooledSql.Proofs.Simulation.Verdicts

/-!
# Chronicles

A chronicle of a pool is a run together with the log of what happens to the requests. Every run has
one. The queue is the line of the log at all times, and since a call is accepted once at most, a
request that was served, refused at its deadline or given up does not come again.
-/

namespace PooledSql

open Machine Passage

variable {m m' : Machine} {s s' : Scene} {id : TaskId} {task : Task} {site : Site}
variable {phase : Phase} {d : Deed} {trace : List Deed} {log : List Passage} {i : Nat}
variable {p : Pool Connection} {call : CallId} {now : Instant} {priority : Nat}

/-- What happens to the requests of a pool in a deed. -/
def Deed.passages (d : Deed) (i : Nat) (p : Pool Connection) : List Passage :=
  (d.section? i).elim [] (·.passages p)

theorem Deed.passages_of_change {x : Section Connection} (h : d.change = some (i, x))
    (p : Pool Connection) : d.passages i p = x.passages p := by
  rw [passages, section?_eq_some_iff.2 h, Option.elim_some]

theorem Deed.passages_eq_nil (h : ∀ x, d.change ≠ some (i, x)) (p : Pool Connection) :
    d.passages i p = [] := by
  rw [passages, section?_eq_none_iff.2 h, Option.elim_none]

namespace Machine

/-- What happens to the requests of a pool in a move. -/
def passages (m : Machine) (i : Nat) (d : Deed) : List Passage :=
  (m.pool? i).elim [] (d.passages i)

/-- A run with a log of what happens to the requests of a pool. -/
inductive Chronicle (i : Nat) : List Deed → List Passage → Machine → Prop where
  | idle (server : Server) : Chronicle i [] [] { server }
  | move {trace : List Deed} {log : List Passage} {m m' : Machine} {d : Deed}
      (h : Chronicle i trace log m) (hmove : Move m d m') :
      Chronicle i (trace ++ [d]) (log ++ m.passages i d) m'
  | switch {trace : List Deed} {log : List Passage} {m : Machine} (h : Chronicle i trace log m)
      (runtime : Bool) (now : Instant) : Chronicle i trace log { m with runtime, now }

theorem Chronicle.free (h : Chronicle i trace log m) : FreeRun trace m := by
  induction h with
  | idle server => exact .idle server
  | move _ hmove ih => exact .move ih hmove
  | switch _ runtime now ih => exact .switch ih runtime now

theorem FreeRun.chronicle (h : FreeRun trace m) (i : Nat) : ∃ log, Chronicle i trace log m := by
  induction h with
  | idle server => exact ⟨[], .idle server⟩
  | move _ hmove ih =>
      obtain ⟨log, hlog⟩ := ih
      exact ⟨_, .move hlog hmove⟩
  | switch _ runtime now ih =>
      obtain ⟨log, hlog⟩ := ih
      exact ⟨log, .switch hlog runtime now⟩

/-! ## The line and the queue -/

/-- The log of a pool begins with the pool. -/
theorem Chronicle.eq_nil (h : Chronicle i trace log m) (hp : m.pool? i = none) : log = [] := by
  induction h with
  | idle server => rfl
  | @move trace log m m' d h hmove ih =>
      cases hformer : m.pool? i with
      | some p => cases (hmove.pool? hformer).symm.trans hp
      | none =>
          rw [ih hformer, passages, hformer]
          rfl
  | switch h runtime now ih => exact ih hp

theorem Chronicle.follows (h : Chronicle i trace log m) (hp : m.pool? i = some p) :
    p.Follows log := by
  induction h generalizing p with
  | idle server => cases hp
  | @move trace log m m' d h hmove ih =>
      cases hformer : m.pool? i with
      | none =>
          obtain ⟨-, config, policy, recycling, rfl⟩ := hmove.of_pool?_none hformer hp
          rw [h.eq_nil hformer, passages, hformer]
          exact Pool.follows_nil (PriorityQueue.toList_ofSlots _) rfl
      | some q =>
          cases hp.symm.trans (hmove.pool? hformer)
          have hattended := h.free.attends.attended i q ((pool?_eq _ _).symm.trans hformer)
          rw [passages, hformer, Option.elim_some]
          obtain ⟨hnone, heq⟩ | ⟨x, hchange, heq⟩ := d.run_cases i q <;> rw [heq]
          · rw [Deed.passages_eq_nil hnone, List.append_nil]
            exact ih hformer
          · obtain ⟨hsound, hready⟩ := h.free.section_of_move hmove hformer hchange
            rw [Deed.passages_of_change hchange]
            exact Section.follows hsound hattended hready
              (hmove.proper h.free.attends hformer hchange) (ih hformer)
  | switch h runtime now ih => exact ih hp

end Machine

/-! ## Joining once -/

/-- Only a request that is accepted joins the queue. -/
theorem Section.joiners_passages (p : Pool Connection) (x : Section Connection) :
    joiners (x.passages p) = [] ∨ ∃ now call priority k, x = .request now call priority ∧
      (p.request now call priority).1 = .ok k ∧ joiners (x.passages p) = [call] := by
  have hserved : ∀ calls : List CallId, joiners (calls.map (.left · .served)) = [] := by
    intro calls
    rw [joiners, List.filterMap_map, List.filterMap_eq_nil_iff]
    exact fun _ _ => rfl
  have hpassages : joiners (x.passages p) = joiners (x.passage? p).toList := by
    rw [Section.passages, joiners_append, hserved, List.append_nil]
  rw [hpassages]
  cases x with
  | request now call priority =>
      cases hrequest : (p.request now call priority).1 with
      | ok k =>
          refine .inr ⟨now, call, priority, k, rfl, hrequest, ?_⟩
          rw [Section.passage?, hrequest]
          rfl
      | error e =>
          rw [Section.passage?, hrequest]
          exact .inl rfl
  | withdraw handle | forget handle =>
      rw [Section.passage?]
      cases p.waiting.get? handle <;> exact .inl rfl
  | _ => exact .inl rfl

/-- A task asks its own pool, and it is noted when the request is accepted. -/
theorem Turn.accepted (h : Turn m id task site phase d s')
    (hchange : d.change = some (i, .request now call priority)) : i = task.pool ∧
      ∀ k, (site.pool.request now call priority).1 = .ok k → .accepted i call ∈ d.events := by
  cases h with
  | ask h =>
      cases hchange
      exact ⟨rfl, fun _ _ => List.mem_singleton_self _⟩
  | refused h =>
      cases hchange
      refine ⟨rfl, fun k hk => ?_⟩
      rw [h] at hk
      cases hk
  | _ => cases hchange

/-- No act is a request. -/
theorem Act.change_ne_request (h : Act m d s') :
    d.change ≠ some (i, .request now call priority) := by
  intro hchange
  cases h.isAct hchange

namespace Machine

theorem Move.accepted {k : QueueHandle} (h : Move m d m') (hp : m.pool? i = some p)
    (hchange : d.change = some (i, .request now call priority))
    (hok : (p.request now call priority).1 = .ok k) : .accepted i call ∈ d.events := by
  obtain ⟨id, task, site, -, hsite, hturn⟩ | hact := h.cases
  · obtain ⟨rfl, haccepted⟩ := hturn.accepted hchange
    cases hp.symm.trans (pool?_of_site hsite)
    exact haccepted k hok
  · exact absurd hchange hact.change_ne_request

theorem Move.count_joiners (h : Move m d m') (i : Nat) (call : CallId) :
    (joiners (m.passages i d)).count call ≤ d.events.countP (Event.accepts i call) := by
  rw [passages]
  cases hp : m.pool? i with
  | none => exact Nat.zero_le _
  | some p =>
      rw [Option.elim_some]
      obtain ⟨hnone, -⟩ | ⟨x, hchange, -⟩ := d.run_cases i p
      · rw [Deed.passages_eq_nil hnone]
        exact Nat.zero_le _
      · rw [Deed.passages_of_change hchange]
        obtain hjoiners | ⟨now, other, priority, k, rfl, hok, hjoiners⟩ :=
          x.joiners_passages p <;> rw [hjoiners]
        · exact Nat.zero_le _
        · obtain rfl | hne := eq_or_ne other call
          · rw [List.count_singleton_self, Nat.succ_le_iff, List.countP_pos_iff]
            exact ⟨_, h.accepted hp hchange hok, by simp [Event.accepts]⟩
          · rw [List.count_singleton, if_neg (by simpa using hne)]
            exact Nat.zero_le _

/-- Whoever joined the queue was accepted. -/
theorem Chronicle.count_joiners (h : Chronicle i trace log m) (call : CallId) :
    (joiners log).count call ≤ acceptances trace i call := by
  induction h with
  | idle server => exact le_rfl
  | @move trace log m m' d h hmove ih =>
      have hjoiners := hmove.count_joiners i call
      rw [joiners_append, List.count_append]
      simp only [acceptances, happened, List.flatMap_append, List.flatMap_singleton,
        List.countP_append] at *
      omega
  | switch h runtime now ih => exact ih

/-- Nobody joins twice. -/
theorem Chronicle.nodup_joiners (h : Chronicle i trace log m) : (joiners log).Nodup := by
  rw [List.nodup_iff_count_le_one]
  intro call
  exact (h.count_joiners call).trans (h.free.acceptances_le_one i call)

end Machine

/-- In every run the queue of a pool is the line of its log, where those who are queued stand with
their slots in the order of arrival, and the acquisitions are those who were served. Whoever is
served is next in that line: nobody is more urgent, and nobody who is as urgent came before. So when
somebody is served, all who had joined before in the same slot or a more urgent one were served
already, or their time was up, or they were given up. -/
theorem served_in_turn (h : FreeRun trace m) (i : Nat) :
    (∃ log, Chronicle i trace log m) ∧ ∀ log, Chronicle i trace log m →
      (∀ p, m.pool? i = some p → p.waiting.toList.Perm ((Passage.line log).map (·.1)) ∧
        p.metrics.acquisitions = servings log) ∧
      InTurn log ∧
      ∀ before a s b t, before ++ [.left b .served] <+: log →
        [.joined a s, .joined b t].Sublist before → s ≤ t → ∃ why, .left a why ∈ before := by
  refine ⟨h.chronicle i, fun log hlog => ?_⟩
  have hturn : InTurn log := by
    cases hp : m.pool? i with
    | none =>
        rw [hlog.eq_nil hp]
        exact inTurn_nil
    | some p => exact (hlog.follows hp).inTurn
  refine ⟨fun p hp => ⟨(hlog.follows hp).perm, (hlog.follows hp).acquisitions⟩, hturn, ?_⟩
  intro before a s b t hserved hjoined hle
  exact hturn.left_of_served hlog.nodup_joiners hserved hjoined hle

namespace Machine

/-- The log of a pool over choices that are made one after the other. -/
def record (m : Machine) (i : Nat) : List Choice → List Passage
  | [] => []
  | choice :: choices =>
    match m.choose choice with
    | some (d, m') => m.passages i d ++ m'.record i choices
    | none => []

theorem Chronicle.follow (h : Chronicle i trace log m) (choices : List Choice) :
    Chronicle i (trace ++ (m.follow choices).1) (log ++ m.record i choices)
      (m.follow choices).2 := by
  induction choices generalizing trace log m with
  | nil =>
      rw [Machine.follow, record, List.append_nil, List.append_nil]
      exact h
  | cons choice choices ih =>
      rw [Machine.follow, record]
      cases hchoose : m.choose choice with
      | none =>
          rw [List.append_nil, List.append_nil]
          exact h
      | some next =>
          obtain ⟨d, m'⟩ := next
          have hnext := ih (h.move (move_of_choose hchoose))
          rw [List.append_assoc, List.append_assoc] at hnext
          exact hnext

end Machine

/-- One connection, which is validated before each loan, and two slots. The first caller has it. The
others ask under the priorities 1, 7, 0 and 0; the last of them goes, time is up for the first of
them, and the connection comes back twice. -/
def contended : List Choice :=
  [.build { max := 1, priorityRange := 2, testOnBorrow := true, acquireTimeout := some 10 } {},
    .begin (.acquire 0 "a" 0), .part 0, .perform 0, .part 1, .part 1, .perform 0, .part 2, .part 2,
    .perform 0, .part 0,
    .begin (.acquire 0 "b" 1), .part 3, .part 3, .begin (.acquire 0 "c" 7), .part 4, .part 4,
    .begin (.acquire 0 "d" 0), .part 5, .part 5, .begin (.acquire 0 "e" 0), .part 6, .part 6,
    .stop 6, .part 6, .sleep 10, .part 3, .part 3,
    .begin (.release 0 "a"), .part 7, .perform 0, .part 8, .part 8, .perform 0, .part 5,
    .begin (.release 0 "d"), .part 9, .perform 0, .part 10, .part 10]

theorem served_in_turn_contended : ∃ before,
    Chronicle 0 (scheduled contended).1 (before ++ [.left 4 .served]) (scheduled contended).2 ∧
      Passage.line before = [(4, 1)] ∧ IsNext (Passage.line before) 4 ∧
      [.joined 3 1, .joined 4 1].Sublist before ∧ ∃ why, .left 3 why ∈ before := by
  have hlog : ({ server := .echo 0 } : Machine).record 0 contended =
      [.joined 0 0, .left 0 .served, .joined 3 1, .joined 4 1, .joined 5 0, .joined 6 0,
        .left 6 .cancelled, .left 3 .timedOut, .left 5 .served] ++ [.left 4 .served] := rfl
  have hchronicle := (Chronicle.idle (i := 0) (.echo 0)).follow contended
  rw [List.nil_append, List.nil_append, hlog] at hchronicle
  obtain ⟨-, hturn, hleft⟩ := (served_in_turn (run_scheduled contended).free 0).2 _ hchronicle
  exact ⟨_, hchronicle, rfl, hturn _ 4 (List.prefix_refl _), by decide,
    hleft _ 3 1 4 1 (List.prefix_refl _) (by decide) le_rfl⟩

end PooledSql
