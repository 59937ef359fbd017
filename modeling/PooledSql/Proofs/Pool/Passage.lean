import Mathlib
import PooledSql.Pool.State

/-!
# Passages

A log notes when requests come into a queue and when they leave it, and why. `Passage.line` reads
off such a log who is queued, in the order of arrival and without a look at the queue;
`Passage.InTurn` says that whoever is served is next in that line, by urgency and then by arrival.
From this alone it follows that nobody is overtaken who is as urgent.
-/

namespace PooledSql

/-- Why a request leaves the queue. -/
inductive Leaving where
  | served
  | timedOut
  | cancelled
  deriving DecidableEq

/-- A request comes into the queue, in a slot, or leaves it. -/
inductive Passage where
  | joined (call : CallId) (slot : Nat)
  | left (call : CallId) (why : Leaving)
  deriving DecidableEq

namespace Passage

variable {log before : List Passage} {queue ranked l r : List (CallId × Nat)}
variable {call a b : CallId} {slot s t : Nat} {why : Leaving}

/-- The requests that are queued after one more passage. -/
def step (queue : List (CallId × Nat)) : Passage → List (CallId × Nat)
  | .joined call slot => queue ++ [(call, slot)]
  | .left call _ => queue.filter (·.1 != call)

/-- The requests that are queued and their slots, in the order in which they came. -/
def line (log : List Passage) : List (CallId × Nat) := log.foldl step []

@[simp] theorem line_joined (log : List Passage) (call : CallId) (slot : Nat) :
    line (log ++ [.joined call slot]) = line log ++ [(call, slot)] := by
  simp [Passage.line, step]

@[simp] theorem line_left (log : List Passage) (call : CallId) (why : Leaving) :
    line (log ++ [.left call why]) = (line log).filter (·.1 != call) := by
  simp [Passage.line, step]

/-- No request is more urgent, and those of the same slot came later. -/
def IsNext (queue : List (CallId × Nat)) (call : CallId) : Prop :=
  ∃ before slot after, queue = before ++ (call, slot) :: after ∧
    (∀ other ∈ before, slot < other.2) ∧ ∀ other ∈ after, slot ≤ other.2

theorem IsNext.mem (h : IsNext queue call) : call ∈ queue.map (·.1) := by
  obtain ⟨before, slot, after, rfl, -⟩ := h
  simp

/-- Whoever was served was next at that moment. -/
def InTurn (log : List Passage) : Prop :=
  ∀ before call, before ++ [.left call .served] <+: log → IsNext (line before) call

theorem inTurn_nil : InTurn [] := by
  intro before call h
  simp at h

theorem InTurn.concat (h : InTurn log) {x : Passage}
    (hx : ∀ call, x = .left call .served → IsNext (line log) call) :
    InTurn (log ++ [x]) := by
  intro before call hprefix
  obtain heq | hprefix := List.prefix_concat_iff.1 hprefix
  · obtain ⟨rfl, hlast⟩ := List.append_inj' heq rfl
    cases hlast
    exact hx call rfl
  · exact h before call hprefix

def isServed : Passage → Bool
  | .left _ .served => true
  | _ => false

/-- How many were served. -/
def servings (log : List Passage) : Nat := log.countP isServed

theorem servings_served (log : List Passage) (calls : List CallId) :
    servings (log ++ calls.map (.left · .served)) = servings log + calls.length := by
  have hall : (calls.map (.left · .served)).countP isServed = calls.length := by
    rw [List.countP_map]
    exact List.countP_eq_length.2 fun _ _ => rfl
  rw [servings, List.countP_append, hall, servings]

theorem servings_concat_of_ne {x : Passage} (hx : ∀ call, x ≠ .left call .served) :
    servings (log ++ [x]) = servings log := by
  have hnot : ¬ x.isServed = true := by
    intro hserved
    cases x with
    | joined => cases hserved
    | left call why => cases why <;> first | exact hx call rfl | cases hserved
  rw [servings, List.countP_append, List.countP_singleton, if_neg hnot]
  rfl

/-! ## Ranks -/

/-- The requests of a line by their slots, those of one slot in the order of the line. -/
structure Ranked (queue ranked : List (CallId × Nat)) : Prop where
  sorted : ranked.Pairwise (·.2 ≤ ·.2)
  order : ∀ slot, ranked.filter (·.2 = slot) = queue.filter (·.2 = slot)

theorem Ranked.mem_iff (h : Ranked queue ranked) {entry : CallId × Nat} :
    entry ∈ ranked ↔ entry ∈ queue := by
  have hmem : ∀ l : List (CallId × Nat), entry ∈ l ↔ entry ∈ l.filter (·.2 = entry.2) := by
    simp
  rw [hmem, h.order, ← hmem]

theorem Ranked.perm (h : Ranked queue ranked) : ranked.Perm queue := by
  rw [List.perm_iff_count]
  intro entry
  have hcount : ∀ l : List (CallId × Nat), (l.filter (·.2 = entry.2)).count entry =
      l.count entry := fun l => List.count_filter (by simp)
  rw [← hcount, h.order, hcount]

theorem Ranked.filter (h : Ranked queue ranked) (keep : CallId × Nat → Bool) :
    Ranked (queue.filter keep) (ranked.filter keep) where
  sorted := h.sorted.filter keep
  order slot := by rw [List.filter_comm, h.order, List.filter_comm]

/-- A request that comes takes its place behind those that are as urgent or more. -/
theorem Ranked.insert (h : Ranked queue (l ++ r)) (call : CallId) (hl : ∀ entry ∈ l, entry.2 ≤ slot)
    (hr : ∀ entry ∈ r, slot < entry.2) :
    Ranked (queue ++ [(call, slot)]) (l ++ (call, slot) :: r) where
  sorted := by
    have hsorted := h.sorted
    rw [List.pairwise_append] at hsorted ⊢
    obtain ⟨hleft, hright, hcross⟩ := hsorted
    refine ⟨hleft, List.pairwise_cons.2 ⟨fun entry hentry => (hr entry hentry).le, hright⟩, ?_⟩
    intro entry hentry other hother
    obtain rfl | hother := List.mem_cons.1 hother
    · exact hl entry hentry
    · exact hcross entry hentry other hother
  order other := by
    have horder := h.order other
    rw [List.filter_append] at horder
    rw [List.filter_append, List.filter_append, ← horder, List.filter_cons, List.filter_cons]
    by_cases hslot : slot = other
    · have hnone : r.filter (·.2 = other) = [] := by
        refine List.filter_eq_nil_iff.2 fun entry hentry => ?_
        have := hr entry hentry
        simp only [decide_eq_true_eq]
        omega
      simp [hnone, hslot]
    · simp [hslot]

/-- The first in rank is next in line. -/
theorem Ranked.isNext (h : Ranked queue ((call, slot) :: ranked)) : IsNext queue call := by
  have hleast : ∀ entry ∈ queue, slot ≤ entry.2 := by
    intro entry hentry
    obtain rfl | hmem := List.mem_cons.1 (h.mem_iff.2 hentry)
    · exact le_rfl
    · exact List.rel_of_pairwise_cons h.sorted hmem
  have horder := (h.order slot).symm
  rw [List.filter_cons_of_pos (by simp)] at horder
  obtain ⟨before, after, rfl, hbefore, -⟩ := List.filter_eq_cons_iff.1 horder
  refine ⟨before, slot, after, rfl, fun other hother => ?_, fun other hother => ?_⟩
  · have hne := hbefore other hother
    have hle := hleast other (List.mem_append_left _ hother)
    simp only [decide_eq_true_eq] at hne
    omega
  · exact hleast other (List.mem_append_right _ (List.mem_cons_of_mem _ hother))

/-- The first in rank are served one after the other. -/
theorem Ranked.serve (h : Ranked (line log) (l ++ r))
    (hnodup : ((l ++ r).map (·.1)).Nodup) (hturn : InTurn log) :
    InTurn (log ++ l.map (.left ·.1 .served)) ∧
      Ranked (line (log ++ l.map (.left ·.1 .served))) r := by
  induction l generalizing log with
  | nil =>
      rw [List.map_nil, List.append_nil]
      exact ⟨hturn, h⟩
  | cons first l ih =>
      rw [List.map_cons, ← List.singleton_append, ← List.append_assoc]
      rw [List.cons_append, List.map_cons, List.nodup_cons] at hnodup
      refine ih ?_ hnodup.2 (hturn.concat fun call heq => ?_)
      · have hrest : (first :: l ++ r).filter (·.1 != first.1) = l ++ r := by
          rw [List.cons_append, List.filter_cons_of_neg (by simp), List.filter_eq_self]
          intro entry hentry
          have hne : entry.1 ≠ first.1 := fun heq =>
            hnodup.1 (heq ▸ List.mem_map_of_mem hentry)
          simpa using hne
        rw [line_left, ← hrest]
        exact h.filter _
      · cases heq
        exact h.isNext

/-! ## Overtaking -/

/-- The call whose request comes into the queue. -/
def joiner? : Passage → Option CallId
  | .joined call _ => some call
  | .left _ _ => none

/-- Those whose requests came into the queue. -/
def joiners (log : List Passage) : List CallId := log.filterMap joiner?

theorem joiners_append (log log' : List Passage) :
    joiners (log ++ log') = joiners log ++ joiners log' := List.filterMap_append

/-- All who are queued came into the queue, in this order. -/
theorem line_sublist (log : List Passage) :
    ((line log).map (·.1)).Sublist (joiners log) := by
  induction log using List.reverseRecOn with
  | nil => exact .slnil
  | append_singleton log x ih =>
      rw [joiners_append]
      cases x with
      | joined call slot =>
          rw [line_joined, List.map_append]
          exact ih.append (.refl _)
      | left call why =>
          rw [line_left]
          exact ((List.filter_sublist.map _).trans ih).trans (List.sublist_append_left _ _)

/-- A request that has not left the queue is there. -/
theorem mem_line (hjoined : .joined call slot ∈ log) (hstays : ∀ why, .left call why ∉ log) :
    (call, slot) ∈ line log := by
  induction log using List.reverseRecOn with
  | nil => cases hjoined
  | append_singleton log x ih =>
      simp only [List.mem_append, List.mem_singleton, not_or] at hjoined hstays
      have hmem : .joined call slot ∈ log → (call, slot) ∈ line log := fun h =>
        ih h fun why => (hstays why).1
      cases x with
      | joined other slot' =>
          rw [line_joined, List.mem_append]
          obtain h | heq := hjoined
          · exact .inl (hmem h)
          · cases heq
            exact .inr (List.mem_singleton_self _)
      | left other why =>
          obtain h | heq := hjoined
          · have hne : call ≠ other := fun heq => (hstays why).2 (heq ▸ rfl)
            rw [line_left]
            exact List.mem_filter.2 ⟨hmem h, by simpa using hne⟩
          · cases heq

/-- Whoever came later stands behind in the line, as long as both are in it. -/
theorem sublist_line (ha : (a, s) ∈ line before) (log : List Passage)
    (hfresh : b ∉ joiners log) : (∃ why, .left a why ∈ log) ∨
      b ∉ (line (before ++ .joined b t :: log)).map (·.1) ∨
        [(a, s), (b, t)].Sublist (line (before ++ .joined b t :: log)) := by
  induction log using List.reverseRecOn with
  | nil =>
      rw [line_joined]
      exact .inr (.inr ((List.singleton_sublist.2 ha).append (.refl _)))
  | append_singleton log x ih =>
      rw [joiners_append, List.mem_append, not_or] at hfresh
      rw [← List.cons_append, ← List.append_assoc]
      obtain ⟨why, hleft⟩ | hgone | hboth := ih hfresh.1
      · exact .inl ⟨why, List.mem_append_left _ hleft⟩
      · refine .inr (.inl ?_)
        cases x with
        | joined call slot =>
            have hne : b ≠ call := fun heq => hfresh.2 (heq ▸ List.mem_singleton_self _)
            rw [line_joined, List.map_append, List.mem_append, not_or]
            exact ⟨hgone, by simpa using hne⟩
        | left call why =>
            rw [line_left]
            exact fun hmem => hgone ((List.filter_sublist.map _).subset hmem)
      · cases x with
        | joined call slot =>
            rw [line_joined]
            exact .inr (.inr (hboth.trans (List.sublist_append_left _ _)))
        | left call why =>
            obtain rfl | hcall := eq_or_ne a call
            · exact .inl ⟨why, List.mem_append_right _ (List.mem_singleton_self _)⟩
            obtain rfl | hcall' := eq_or_ne b call
            · rw [line_left]
              exact .inr (.inl (by simp))
            · have hkeep := hboth.filter (·.1 != call)
              rw [List.filter_eq_self.2 (by simp [hcall, hcall'])] at hkeep
              rw [line_left]
              exact .inr (.inr hkeep)

/-- Whoever is next has nobody before it who is as urgent. -/
theorem IsNext.lt_of_sublist (h : IsNext queue b) (hnodup : (queue.map (·.1)).Nodup)
    (hboth : [(a, s), (b, t)].Sublist queue) : t < s := by
  obtain ⟨before, slot, after, rfl, hbefore, -⟩ := h
  rw [List.map_append, List.map_cons, List.nodup_middle, List.nodup_cons, List.mem_append,
    not_or] at hnodup
  obtain ⟨⟨hleft, hright⟩, -⟩ := hnodup
  have hother : ∀ {l : List (CallId × Nat)}, (b, t) ∈ l → b ∈ l.map (·.1) := fun hmem =>
    List.mem_map_of_mem hmem
  obtain ⟨first, last, heq, hfirst, hlast⟩ := List.sublist_append_iff.1 hboth
  cases first with
  | nil =>
      subst heq
      exact absurd (hother (List.singleton_sublist.1 hlast.tail)) hright
  | cons x first =>
      rw [List.cons_append, List.cons.injEq] at heq
      obtain ⟨rfl, heq⟩ := heq
      cases first with
      | nil =>
          subst heq
          obtain heq | hmem := List.mem_cons.1 (List.singleton_sublist.1 hlast)
          · cases heq
            exact hbefore _ (List.singleton_sublist.1 hfirst)
          · exact absurd (hother hmem) hright
      | cons y first =>
          rw [List.cons_append, List.cons.injEq] at heq
          obtain ⟨rfl, -⟩ := heq
          exact absurd (hother (hfirst.subset (by simp))) hleft

/-- Nobody is overtaken who is as urgent: whoever came before one who is served has left. -/
theorem InTurn.left_of_served (h : InTurn log) (hfresh : (joiners log).Nodup)
    (hserved : before ++ [.left b .served] <+: log)
    (hjoined : [.joined a s, .joined b t].Sublist before) (hle : s ≤ t) :
    ∃ why, .left a why ∈ before := by
  have hnext := h before b hserved
  have hnodup : (joiners before).Nodup :=
    hfresh.sublist (((List.prefix_append before _).trans hserved).sublist.filterMap _)
  obtain ⟨first, rest, rfl, ha, hb⟩ := List.cons_sublist_iff.1 hjoined
  obtain ⟨middle, last, rfl⟩ := List.append_of_mem (List.singleton_sublist.1 hb)
  by_contra hstays
  rw [not_exists] at hstays
  have hline : (a, s) ∈ line (first ++ middle) := by
    refine mem_line (List.mem_append_left _ ha) fun why hleft => hstays why ?_
    rw [← List.append_assoc]
    exact List.mem_append_left _ hleft
  rw [← List.append_assoc] at hnext hnodup hstays
  have hfresh' : b ∉ joiners last := by
    rw [joiners_append, List.nodup_append'] at hnodup
    exact (List.nodup_cons.1 hnodup.2.1).1
  obtain ⟨why, hleft⟩ | hgone | hboth := sublist_line (t := t) hline last hfresh'
  · exact hstays why (List.mem_append_right _ (List.mem_cons_of_mem _ hleft))
  · exact hgone hnext.mem
  · have hlt := hnext.lt_of_sublist (hnodup.sublist (line_sublist _)) hboth
    omega

end Passage

end PooledSql
