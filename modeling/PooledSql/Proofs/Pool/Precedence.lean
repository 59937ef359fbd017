import PooledSql.Proofs.Pool.Passage
import PooledSql.Proofs.Pool.Requests

/-!
# Precedence

Who is served is decided by urgency and then by arrival. Sections of the pool write a log of the
requests that come and go, and `Pool.Follows` says that the queue is the line of this log by ranks.
Every section keeps it so: a request takes its place by its slot, whoever leaves does so from any
place, and leases are handed out from the front.
-/

namespace PooledSql

open Passage

variable {ρ : Type}

namespace Pool

variable {p p' q : Pool ρ} {log : List Passage} {caller : Option CallId} {call : CallId}
variable {k : QueueHandle}

/-! ## Hand-outs -/

/-- The calls that are owed leases now and were not before. -/
def handed (p p' : Pool ρ) : List CallId := p'.owed.filter (· ∉ p.owed)

theorem handed_congr (h : q.owed = p.owed) : q.handed p' = p.handed p' := by
  rw [handed, handed, h]

/-- Those who were queued are handed leases, between others that were on their way before. -/
theorem Attended.handed_eq {before served after : List CallId} (h : p.Attended)
    (howed : p'.owed = before ++ served ++ after) (hbefore : before ⊆ p.owed)
    (hserved : served ⊆ p.waiting.toList) (hafter : after ⊆ p.owed) : p.handed p' = served := by
  have hold : ∀ {l : List CallId}, l ⊆ p.owed → l.filter (· ∉ p.owed) = [] := by
    intro l hl
    rw [List.filter_eq_nil_iff]
    intro call hcall
    simpa using hl hcall
  have hnew : served.filter (· ∉ p.owed) = served := by
    rw [List.filter_eq_self]
    intro call hcall
    simpa using h.unowed call (hserved hcall)
  rw [handed, howed, List.filter_append, List.filter_append, hold hbefore, hold hafter, hnew,
    List.nil_append, List.append_nil]

theorem Attended.handed_eq_nil (h : p.Attended) (howed : p'.owed ⊆ p.owed) :
    p.handed p' = [] := by
  have hsplit : p'.owed = [] ++ [] ++ p'.owed := rfl
  exact h.handed_eq hsplit (List.nil_subset _) (List.nil_subset _) howed

/-- Those who are handed leases come from the front of the queue, and are counted. -/
structure HandsOut (p p' : Pool ρ) : Prop where
  toList : p.waiting.toList = p.handed p' ++ p'.waiting.toList
  acquisitions : p'.metrics.acquisitions = p.metrics.acquisitions + (p.handed p').length

/-- Nobody is handed a lease. -/
theorem Attended.handsOut_of_eq (h : p.Attended) (howed : p'.owed ⊆ p.owed)
    (hwaiting : p'.waiting.toList = p.waiting.toList)
    (hacquisitions : p'.metrics.acquisitions = p.metrics.acquisitions) : p.HandsOut p' where
  toList := by rw [h.handed_eq_nil howed, hwaiting, List.nil_append]
  acquisitions := by rw [h.handed_eq_nil howed, hacquisitions, List.length_nil, Nat.add_zero]

theorem Serves.handsOut (h : p.Serves p') (hp : p.Attended) : p.HandsOut p' := by
  obtain ⟨served, hlist, -, howed, hacquisitions⟩ := h.served
  have hsubset : served ⊆ p.waiting.toList := hlist ▸ List.subset_append_left _ _
  rw [← List.append_nil (p.owed ++ served)] at howed
  have hhanded := hp.handed_eq howed (List.Subset.refl _) hsubset (List.nil_subset _)
  exact ⟨hhanded ▸ hlist, hhanded ▸ hacquisitions⟩

/-- A lease leaves the outbox. If it comes back, somebody else may get it. -/
theorem Attended.handsOut_delivery {before after : List (Action ρ)} {l : Lease ρ}
    (h : p.Attended) (houtbox : p.outbox = before ++ .deliver call l :: after) (now : Instant)
    (sample : Duration) :
    p.HandsOut (Section.run p (.deliver now sample before call l after)) := by
  obtain ⟨calls, hother, hcall, hdeliver⟩ :=
    deliver_cases ({ p with outbox := before ++ after } : Pool ρ) call l
  have hresolve := h.minds_resolve houtbox hother hcall
  have hkept : (before ++ after).flatMap Action.calls ⊆ p.owed := by
    intro other hmem
    simp only [owed, houtbox, List.flatMap_append, List.flatMap_cons, List.mem_append] at hmem ⊢
    tauto
  rw [Section.run]
  obtain heq | heq := hdeliver <;> simp only [heq]
  · exact h.handsOut_of_eq hkept rfl rfl
  · have hempty : ({ p with outbox := [], calls } : Pool ρ).Attended :=
      { hresolve.attended with unowed := fun _ _ => List.not_mem_nil }
    obtain ⟨served, hlist, -, howed, hacquisitions⟩ :=
      (hempty.serves_reclaim now sample l).served
    change p.waiting.toList = _ at hlist
    have hsubset : served ⊆ p.waiting.toList := hlist ▸ List.subset_append_left _ _
    generalize ({ p with outbox := [], calls } : Pool ρ).reclaim now sample l = q at *
    have hboth : ({ q with outbox := q.outbox ++ (before ++ after) } : Pool ρ).owed =
        [] ++ served ++ (before ++ after).flatMap Action.calls :=
      List.flatMap_append.trans (congrArg (· ++ _) howed)
    have hhanded := h.handed_eq hboth (List.nil_subset _) hsubset hkept
    constructor
    · rw [hhanded]
      exact hlist
    · rw [hhanded]
      exact hacquisitions

/-! ## The queue and its log -/

/-- The queue is the line of the log by ranks, all in it have handles for their slots, and those
who were served are counted. -/
structure Follows (p : Pool ρ) (log : List Passage) : Prop where
  ranked : ∃ ranked, Ranked (line log) ranked ∧ p.waiting.toList = ranked.map (·.1)
  handle : ∀ entry ∈ line log, ∃ k : QueueHandle,
    k.slot = entry.2 ∧ p.waiting.get? k = some entry.1
  inTurn : InTurn log
  acquisitions : p.metrics.acquisitions = servings log

theorem follows_nil (h : p.waiting.toList = []) (hacquisitions : p.metrics.acquisitions = 0) :
    p.Follows [] where
  ranked := ⟨[], ⟨.nil, fun _ => rfl⟩, h⟩
  handle _ hentry := absurd hentry List.not_mem_nil
  inTurn := inTurn_nil
  acquisitions := hacquisitions

/-- The queue as a list is the line, up to order. -/
theorem Follows.perm (h : p.Follows log) : p.waiting.toList.Perm ((line log).map (·.1)) := by
  obtain ⟨ranked, hranked, hlist⟩ := h.ranked
  rw [hlist]
  exact hranked.perm.map _

/-- The handle of a request goes on to mean it as long as it is queued. -/
theorem Minds.get?_of_mem (h : Minds caller p p') (hcaller : some call ≠ caller)
    (hk : p.waiting.get? k = some call) (hmem : call ∈ p'.waiting.toList) :
    p'.waiting.get? k = some call :=
  (h.standing hcaller (.queued rfl hk)).get?_of_mem hmem

/-- Nobody comes, and those who stay keep their handles. -/
theorem Follows.of_minds {log' : List Passage} {ranked : List (CallId × Nat)} (h : p.Follows log)
    (hminds : Minds caller p p') (hcaller : ∀ call ∈ p'.waiting.toList, some call ≠ caller)
    (hranked : Ranked (line log') ranked) (hlist : p'.waiting.toList = ranked.map (·.1))
    (hstays : ∀ entry ∈ line log', entry ∈ line log) (hturn : InTurn log')
    (hacquisitions : p'.metrics.acquisitions = servings log') : p'.Follows log' where
  ranked := ⟨ranked, hranked, hlist⟩
  handle entry hentry := by
    obtain ⟨k, hslot, hk⟩ := h.handle entry (hstays entry hentry)
    have hmem : entry.1 ∈ p'.waiting.toList :=
      hlist ▸ List.mem_map_of_mem (hranked.mem_iff.2 hentry)
    exact ⟨k, hslot, hminds.get?_of_mem (hcaller _ hmem) hk hmem⟩
  inTurn := hturn
  acquisitions := hacquisitions

/-- Some from the front of the queue are served. -/
theorem Follows.serve (h : p.Follows log) (hp : p.Attended) (hminds : Minds caller p p')
    (hcaller : ∀ call ∈ p'.waiting.toList, some call ≠ caller) (hout : p.HandsOut p') :
    p'.Follows (log ++ (p.handed p').map (.left · .served)) := by
  obtain ⟨ranked, hranked, hold⟩ := h.ranked
  obtain ⟨first, rest, rfl, hfirst, hrest⟩ :=
    List.map_eq_append_iff.1 (hold.symm.trans hout.toList)
  obtain ⟨hturn, hranked'⟩ := hranked.serve (hold ▸ hp.nodup) h.inTurn
  have hserved : (p.handed p').map (Passage.left · .served) =
      first.map (Passage.left ·.1 .served) := by
    rw [← hfirst, List.map_map]
    rfl
  have hcount : p'.metrics.acquisitions = servings (log ++ first.map (.left ·.1 .served)) := by
    rw [← hserved, servings_served, ← h.acquisitions, hout.acquisitions]
  rw [hserved]
  refine h.of_minds hminds hcaller hranked' hrest.symm ?_ hturn hcount
  intro entry hentry
  exact hranked.mem_iff.1 (List.mem_append_right _ (hranked'.mem_iff.2 hentry))

theorem Follows.serves (h : p.Follows log) (hp : p.Attended) (hserves : p.Serves p') :
    p'.Follows (log ++ (p.handed p').map (.left · .served)) :=
  h.serve hp (hserves.minds hp) (fun _ _ => Option.some_ne_none _) (hserves.handsOut hp)

/-- A request is withdrawn from the queue. -/
theorem Follows.leave {why : Leaving} (h : p.Follows log) (hp : p.Attended)
    (hminds : Minds (some call) p p')
    (hlist : p'.waiting.toList = p.waiting.toList.erase call)
    (hacquisitions : p'.metrics.acquisitions = p.metrics.acquisitions) (hwhy : why ≠ .served) :
    p'.Follows (log ++ [.left call why]) := by
  obtain ⟨ranked, hranked, hold⟩ := h.ranked
  have hnew : p'.waiting.toList = (ranked.filter (·.1 != call)).map (·.1) := by
    rw [hlist, hp.nodup.erase_eq_filter, hold, List.filter_map]
    rfl
  refine h.of_minds hminds (fun other hother => ?_) ?_ hnew (fun entry hentry => ?_) ?_ ?_
  · rw [hlist] at hother
    exact fun heq => hp.nodup.not_mem_erase (Option.some_inj.1 heq ▸ hother)
  · rw [line_left]
    exact hranked.filter _
  · rw [line_left] at hentry
    exact List.mem_of_mem_filter hentry
  · refine h.inTurn.concat fun other heq => ?_
    cases heq
    exact absurd rfl hwhy
  · rw [hacquisitions, h.acquisitions, servings_concat_of_ne]
    intro other heq
    cases heq
    exact hwhy rfl

/-- A priority beyond the last slot counts as the last. -/
theorem Attended.slot_enqueue (hp : p.Attended) (call : CallId) (priority : Nat) :
    (p.waiting.enqueue call priority).1.slot = min priority (p.config.priorityRange - 1) := by
  rw [← hp.slots]
  rfl

/-- A request that joins the queue stands behind all that are as urgent or more. -/
theorem Follows.place (h : p.Follows log) (hp : p.Attended) (call : CallId) (priority : Nat) :
    ∃ left right, Ranked (line log) (left ++ right) ∧
      (p.join call priority).waiting.toList = left.map (·.1) ++ call :: right.map (·.1) ∧
      (∀ entry ∈ left, entry.2 ≤ min priority (p.config.priorityRange - 1)) ∧
      ∀ entry ∈ right, min priority (p.config.priorityRange - 1) < entry.2 := by
  obtain ⟨ranked, hranked, hold⟩ := h.ranked
  obtain ⟨l, r, hsplit, hnew, hplace⟩ := hp.wf.enqueue_order hp.nodup call priority
  -- a handle tells on which side of the new request its own stands
  have hside : ∀ entry ∈ ranked,
      (entry.1 ∈ l ↔ entry.2 ≤ min priority (p.config.priorityRange - 1)) := by
    intro entry hentry
    obtain ⟨k, hk, hget⟩ := h.handle entry (hranked.mem_iff.1 hentry)
    rw [← hk, ← hp.slot_enqueue call priority]
    exact hplace k entry.1 hget
  obtain ⟨left, right, rfl, rfl, rfl⟩ := List.map_eq_append_iff.1 (hold.symm.trans hsplit)
  have hnodup := hp.nodup
  rw [hsplit, List.nodup_append'] at hnodup
  refine ⟨left, right, hranked, hnew, fun entry hentry => ?_, fun entry hentry => ?_⟩
  · exact (hside entry (List.mem_append_left _ hentry)).1 (List.mem_map_of_mem hentry)
  · refine not_le.1 fun hle => ?_
    have hleft := (hside entry (List.mem_append_right _ hentry)).2 hle
    exact hnodup.2.2 hleft (List.mem_map_of_mem hentry)

/-- A request joins the queue. -/
theorem Follows.join {priority : Nat} (h : p.Follows log) (hp : p.Attended)
    (hminds : Minds (some call) p (p.join call priority)) :
    (p.join call priority).Follows
      (log ++ [.joined call (min priority (p.config.priorityRange - 1))]) := by
  obtain ⟨left, right, hranked, hnew, hleft, hright⟩ := h.place hp call priority
  have hnodup := hminds.attended.nodup
  rw [hnew, List.nodup_middle, List.nodup_cons, ← List.map_append] at hnodup
  refine ⟨⟨left ++ (call, min priority (p.config.priorityRange - 1)) :: right, ?_, ?_⟩, ?_, ?_, ?_⟩
  · rw [line_joined]
    exact hranked.insert call hleft hright
  · rw [hnew, List.map_append, List.map_cons]
  · intro entry hentry
    rw [line_joined, List.mem_append, List.mem_singleton] at hentry
    obtain hentry | rfl := hentry
    · obtain ⟨k, hk, hget⟩ := h.handle entry hentry
      have hmem : entry.1 ∈ (left ++ right).map (·.1) :=
        List.mem_map_of_mem (hranked.mem_iff.2 hentry)
      -- who joins is not in line, so the others keep the handles that they have
      have hne : entry.1 ≠ call := fun heq => hnodup.1 (heq ▸ hmem)
      refine ⟨k, hk, hminds.get?_of_mem (by simpa using hne) hget ?_⟩
      rw [List.map_append] at hmem
      rw [hnew]
      simp only [List.mem_append, List.mem_cons] at hmem ⊢
      tauto
    · exact ⟨_, hp.slot_enqueue call priority, hp.wf.get?_enqueue call priority⟩
  · refine h.inTurn.concat fun other heq => ?_
    cases heq
  · rw [servings_concat_of_ne]
    · exact h.acquisitions
    · intro other heq
      cases heq

end Pool

namespace Section

open Pool

variable {p : Pool ρ} {x : Section ρ} {log : List Passage}

/-- The passage of the request that the section is about, other than that it is served. -/
def passage? (p : Pool ρ) : Section ρ → Option Passage
  | .request now call priority =>
    match (p.request now call priority).1 with
    | .ok _ => some (.joined call (min priority (p.config.priorityRange - 1)))
    | .error _ => none
  | .withdraw handle _ => (p.waiting.get? handle).map (.left · .timedOut)
  | .forget handle => (p.waiting.get? handle).map (.left · .cancelled)
  | _ => none

/-- What happens to requests in the section: one may come or go, and then some are served. -/
def passages (p : Pool ρ) (x : Section ρ) : List Passage :=
  (x.passage? p).toList ++ (p.handed (x.run p)).map (.left · .served)

theorem passages_of_owed (hp : p.Attended) (howed : (x.run p).owed ⊆ p.owed) :
    x.passages p = (x.passage? p).toList := by
  rw [passages, hp.handed_eq_nil howed]
  exact List.append_nil _

theorem follows_of_eq (hp : p.Attended) (h : p.Follows log) (hrun : x.run p = p)
    (hpassage : x.passage? p = none) : (x.run p).Follows (log ++ x.passages p) := by
  have howed : (x.run p).owed ⊆ p.owed := by
    rw [hrun]
    exact List.Subset.refl _
  rw [passages_of_owed hp howed, hpassage, hrun, Option.toList_none, List.append_nil]
  exact h

/-- A request that is accepted joins before the queue is served. -/
theorem follows_request {call : CallId} (hp : p.Attended) (hcall : call ∉ p.calls.keys)
    (howed : call ∉ p.owed) (h : p.Follows log) (now : Instant) (priority : Nat) :
    (run p (.request now call priority)).Follows
      (log ++ passages p (.request now call priority)) := by
  obtain ⟨q, hawake, hsame, hjoin, hrequest⟩ := hp.request_cases hcall howed now priority
  have hq := h.serves hp hawake
  obtain ⟨e, heq⟩ | heq := hrequest
  · simp only [passages, passage?, run, heq]
    exact hq
  · rw [hp.handed_eq_nil (hsame ▸ List.Subset.refl _), List.map_nil, List.append_nil] at hq
    have hjoined := hq.join (hawake.attended hp) hjoin
    rw [hawake.config] at hjoined
    have hdispatch := hjoined.serves hjoin.attended (hjoin.attended.serves_dispatch now)
    have hsame' : (q.join call priority).owed = p.owed := hsame
    rw [handed_congr hsame', List.append_assoc] at hdispatch
    simp only [passages, passage?, run, heq]
    exact hdispatch

/-- Every section keeps the log of its pool. -/
theorem follows (hsound : p.Sound []) (hp : p.Attended) (hx : x.Ready p) (hproper : x.Proper p)
    (h : p.Follows log) : (x.run p).Follows (log ++ x.passages p) := by
  cases x with
  | request now call priority => exact follows_request hp hx hproper h now priority
  | withdraw handle timeout =>
      cases hk : p.waiting.get? handle with
      | none => exact follows_of_eq hp h (withdraw_of_none hk timeout) (by rw [passage?, hk]; rfl)
      | some call =>
          obtain ⟨waiting, hremove, hrun⟩ := hp.withdraw_eq hk timeout
          change run p (.withdraw handle timeout) = _ at hrun
          rw [passages_of_owed hp (hrun ▸ List.Subset.refl _), passage?, hk]
          refine h.leave hp (hk ▸ hp.minds_withdraw handle timeout) ?_ ?_ (by decide) <;> rw [hrun]
          exact hp.toList_of_remove hremove
  | forget handle =>
      cases hk : p.waiting.get? handle with
      | none => exact follows_of_eq hp h (forget_of_none hk) (by rw [passage?, hk]; rfl)
      | some call =>
          obtain ⟨waiting, hremove, hrun⟩ := hp.forget_eq hk
          change run p (.forget handle) = _ at hrun
          rw [passages_of_owed hp (hrun ▸ List.Subset.refl _), passage?, hk]
          refine h.leave hp (hk ▸ hp.minds_forget handle) ?_ ?_ (by decide) <;> rw [hrun]
          exact hp.toList_of_remove hremove
  | hangUp call =>
      exact h.serve hp (hp.minds_hangUp hproper)
        (fun other hother heq => hproper (Option.some_inj.1 heq ▸ hother))
        (hp.handsOut_of_eq (List.Subset.refl _) rfl rfl)
  | deliver now sample before call lease after =>
      exact h.serve hp (hp.minds_delivery hx.1 now sample) (fun _ _ => Option.some_ne_none _)
        (hp.handsOut_delivery hx.1 now sample)
  | _ => exact h.serves hp (serves hsound hp hx rfl)

end Section

end PooledSql
