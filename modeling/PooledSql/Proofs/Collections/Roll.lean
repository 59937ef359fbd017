import PooledSql.Proofs.Collections.Arena

/-!
# The list behind a deque

A deque stands for the list of its entries, each a handle with a value. `Roll.Step` says what a
call does to that list: a new entry gets a handle that was never given out, every other call looks
for the entry of a handle and finds it, or finds nothing. `Deque.Tracks` is what ties a deque to
its list through every call. Its heart is that the handles given out for a slot are those of the
generations up to the slot's own, which only the entry that is there now may have.
-/

namespace PooledSql

namespace Deque

variable {α : Type}

/-! ## Calls -/

/-- What a deque is asked to do. -/
inductive Call (α : Type) where
  | push (v : α)
  | unshift (v : α)
  | shift
  | pop
  | remove (k : Handle)
  | replace (k : Handle) (v : α)
  /-- The test may depend on the values that it was asked about before. -/
  | retain (keep : List α → α → Bool)

/-- What a deque answers. -/
inductive Reply (α : Type) where
  | handle (k : Handle)
  | value (v : Option α)
  /-- The values that a test was asked about, in order. -/
  | asked (vs : List α)

/-- The handle that was given out, if one was. -/
def Reply.handle? : Reply α → Option Handle
  | .handle k => some k
  | .value _ | .asked _ => none

/-- A test as a program that notes what it is asked about. -/
def asking (keep : List α → α → Bool) (v : α) : StateM (List α) Bool :=
  modifyGet fun asked => (keep asked v, asked ++ [v])

theorem run_asking (keep : List α → α → Bool) (v : α) (asked : List α) :
    (asking keep v).run asked = (keep asked v, asked ++ [v]) := rfl

/-- The answer to a call for a value, and the deque after it. -/
def replied (d : Deque α) : Option (α × Deque α) → Reply α × Deque α
  | some (v, e) => (.value (some v), e)
  | none => (.value none, d)

/-- The answer to a call, and the deque after it. -/
def call (d : Deque α) : Call α → Reply α × Deque α
  | .push v => (d.push v).map .handle id
  | .unshift v => (d.unshift v).map .handle id
  | .shift => d.replied d.shift
  | .pop => d.replied d.pop
  | .remove k => d.replied (d.remove k)
  | .replace k v => d.replied (d.replace k v)
  | .retain keep => ((d.retainM (asking keep)).run []).swap.map .asked id

/-- A call with its faults. -/
def tryCall (d : Deque α) : Call α → Except ArenaFault (Reply α × Deque α)
  | .push v => return (← d.tryPush v).map .handle id
  | .unshift v => return (← d.tryUnshift v).map .handle id
  | .shift => return d.replied (← d.tryShift)
  | .pop => return d.replied (← d.tryPop)
  | .remove k => return d.replied (← d.tryRemove k)
  | .replace k v => return d.replied (d.replace k v)
  | .retain keep => return (← d.tryRetain (asking keep) []).swap.map .asked id

/-- The answers to calls in turn, and the deque after them. -/
def serve (d : Deque α) : List (Call α) → List (Reply α) × Deque α
  | [] => ([], d)
  | c :: rest =>
    let (reply, e) := d.call c
    let (replies, f) := e.serve rest
    (reply :: replies, f)

/-- Calls in turn with their faults. -/
def tryServe (d : Deque α) : List (Call α) → Except ArenaFault (List (Reply α) × Deque α)
  | [] => .ok ([], d)
  | c :: rest => do
    let (reply, e) ← d.tryCall c
    let (replies, f) ← e.tryServe rest
    return (reply :: replies, f)

end Deque

/-! ## Lists of entries -/

/-- The entries of a deque from front to back, and the handles that were given out so far. -/
structure Roll (α : Type) where
  entries : List (Handle × α)
  issued : List Handle

namespace Roll

open Deque

variable {α : Type} {r r' r'' : Roll α} {c : Call α} {reply : Reply α}
variable {calls : List (Call α)} {replies : List (Reply α)} {k : Handle}

def empty : Roll α := ⟨[], []⟩

/-- The handles of the entries that are there. -/
def handles (r : Roll α) : List Handle := r.entries.map (·.1)

/-- How many entries have left a slot. -/
def removals (r : Roll α) (i : Nat) : Nat :=
  (r.issued.filter fun k => k.index = i ∧ k ∉ r.handles).length

/-- The entries that pass a test, which was asked about some values before. -/
def sift (keep : List α → α → Bool) : List α → List (Handle × α) → List (Handle × α)
  | _, [] => []
  | asked, entry :: rest =>
    if keep asked entry.2 then entry :: sift keep (asked ++ [entry.2]) rest
    else sift keep (asked ++ [entry.2]) rest

/-- The entry with another value, if it is that of the handle. -/
def revalued (k : Handle) (v : α) (entry : Handle × α) : Handle × α :=
  if entry.1 = k then (k, v) else entry

/-- What a call does to the list of entries, and what the answer is. -/
inductive Step : Roll α → Call α → Reply α → Roll α → Prop where
  | push {r : Roll α} {k : Handle} (v : α) (hnew : k ∉ r.issued) :
      Step r (.push v) (.handle k) ⟨r.entries ++ [(k, v)], k :: r.issued⟩
  | unshift {r : Roll α} {k : Handle} (v : α) (hnew : k ∉ r.issued) :
      Step r (.unshift v) (.handle k) ⟨(k, v) :: r.entries, k :: r.issued⟩
  | shift (r : Roll α) :
      Step r .shift (.value (r.entries.head?.map (·.2))) ⟨r.entries.tail, r.issued⟩
  | pop (r : Roll α) :
      Step r .pop (.value (r.entries.getLast?.map (·.2))) ⟨r.entries.dropLast, r.issued⟩
  | remove (r : Roll α) (k : Handle) :
      Step r (.remove k) (.value (r.entries.lookup k))
        ⟨r.entries.eraseP (·.1 = k), r.issued⟩
  | replace (r : Roll α) (k : Handle) (v : α) :
      Step r (.replace k v) (.value (r.entries.lookup k))
        ⟨r.entries.map (revalued k v), r.issued⟩
  /-- The test is asked once for each entry, from front to back. -/
  | retain (r : Roll α) (keep : List α → α → Bool) :
      Step r (.retain keep) (.asked (r.entries.map (·.2))) ⟨sift keep [] r.entries, r.issued⟩

/-- What calls in turn do to the list of entries, and what the answers are. -/
inductive Run : Roll α → List (Call α) → List (Reply α) → Roll α → Prop where
  | nil (r : Roll α) : Run r [] [] r
  | cons {r r' r'' : Roll α} {c : Call α} {reply : Reply α} {calls : List (Call α)}
      {replies : List (Reply α)} (h : r.Step c reply r') (hrest : Run r' calls replies r'') :
      Run r (c :: calls) (reply :: replies) r''

theorem fst_revalued (k : Handle) (v : α) (entry : Handle × α) :
    (revalued k v entry).1 = entry.1 := by
  rw [revalued]
  split
  · rename_i hk
    exact hk.symm
  · rfl

/-- The entries that are kept keep their order. -/
theorem sift_sublist (keep : List α → α → Bool) (asked : List α) (entries : List (Handle × α)) :
    (sift keep asked entries).Sublist entries := by
  induction entries generalizing asked with
  | nil => exact .slnil
  | cons entry rest ih =>
      rw [sift]
      split
      · exact (ih _).cons_cons entry
      · exact (ih _).cons entry

/-- No call brings back a handle that was given out before. -/
theorem Step.mem_handles (h : r.Step c reply r') (hk : k ∈ r'.handles) :
    k ∈ r.handles ∨ k ∉ r.issued := by
  cases h with
  | push v hnew =>
      obtain hk | rfl : k ∈ r.handles ∨ k = _ := by simpa [handles] using hk
      · exact .inl hk
      · exact .inr hnew
  | unshift v hnew =>
      obtain rfl | hk : k = _ ∨ k ∈ r.handles := by simpa [handles] using hk
      · exact .inr hnew
      · exact .inl hk
  | shift => exact .inl ((r.entries.tail_sublist.map _).subset hk)
  | pop => exact .inl ((r.entries.dropLast_sublist.map _).subset hk)
  | remove j => exact .inl ((List.eraseP_sublist.map _).subset hk)
  | replace j v =>
      rw [handles, List.map_map, funext (fst_revalued j v) (f := Prod.fst ∘ revalued j v)] at hk
      exact .inl hk
  | retain keep => exact .inl (((sift_sublist keep [] r.entries).map _).subset hk)

theorem Step.issued (h : r.Step c reply r') :
    r'.issued = reply.handle?.toList ++ r.issued := by
  cases h <;> rfl

/-- The handles that were given out are those of the answers. -/
theorem Run.issued (h : r.Run calls replies r') :
    r'.issued = (replies.filterMap Reply.handle?).reverse ++ r.issued := by
  induction h with
  | nil => rfl
  | cons hstep hrest ih =>
      rw [ih, hstep.issued, List.filterMap_cons]
      split <;> rename_i hreply <;> simp [hreply]

theorem lookup_eq_none_iff : r.entries.lookup k = none ↔ k ∉ r.handles := by
  rw [List.lookup_eq_none_iff, handles, List.mem_map]
  constructor
  · rintro hk ⟨entry, hentry, rfl⟩
    exact bne_iff_ne.1 (hk entry hentry) rfl
  · intro hk entry hentry
    exact bne_iff_ne.2 fun heq => hk ⟨entry, hentry, heq.symm⟩

/-- An entry that has left is gone for good. -/
theorem Run.notMem_handles (h : r.Run calls replies r') (hissued : k ∈ r.issued)
    (hk : k ∉ r.handles) : k ∉ r'.handles := by
  induction h with
  | nil => exact hk
  | cons hstep hrest ih =>
      refine ih (hstep.issued ▸ List.mem_append_right _ hissued) ?_
      intro hmem
      exact (hstep.mem_handles hmem).elim hk fun hnew => hnew hissued

end Roll

namespace Deque

variable {α : Type} {d e : Deque α} {es l rest : List (Handle × α)} {r r' : Roll α}
variable {issued : List Handle} {k : Handle} {v w : α}

/-! ## Looking -/

theorem Lists.get?_eq (h : d.Lists es) (k : Handle) : d.get? k = es.lookup k := by
  cases hlookup : es.lookup k with
  | some v =>
      obtain ⟨l, r, rfl, -⟩ := List.lookup_eq_some_iff.1 hlookup
      rw [Deque.get?, h.nodeOf?]
      rfl
  | none =>
      rw [Deque.get?, Option.map_eq_none_iff, Option.eq_none_iff_forall_not_mem]
      intro n hn
      obtain ⟨l, r, rfl⟩ := h.mem_of_nodeOf? hn
      have hk := List.lookup_eq_none_iff.1 hlookup (k, n.value) (by simp)
      simp at hk

/-- What can be seen of a deque is what can be seen of the list of its entries. -/
structure Reads (d : Deque α) (r : Roll α) : Prop where
  /-- Going on from node to node meets the entries and comes to an end. -/
  iter : ∀ fuel, r.entries.length ≤ fuel → d.walk fuel d.head = r.entries
  length : d.length = r.entries.length
  isEmpty : d.isEmpty = r.entries.isEmpty
  front : d.front? = r.entries.head?.map (·.2)
  back : d.back? = r.entries.getLast?.map (·.2)
  head : d.headHandle? = r.entries.head?.map (·.1)
  tail : d.tailHandle? = r.entries.getLast?.map (·.1)
  get? : ∀ k, d.get? k = r.entries.lookup k
  contains : ∀ k, d.contains k = (r.entries.lookup k).isSome

theorem Lists.reads (h : d.Lists r.entries) : d.Reads r where
  iter fuel hfuel := by
    rw [h.head]
    exact h.walk [] _ rfl hfuel
  length := h.length
  isEmpty := by
    rw [Deque.isEmpty, h.length]
    cases r.entries <;> rfl
  front := by
    obtain ⟨_ | ⟨⟨k, v⟩, rest⟩, issued⟩ := r
    · rw [front?, h.head]
      rfl
    · rw [front?, h.head]
      change ((some k.index).bind d.node?).map (·.value) = _
      rw [Option.bind_some, h.node? (l := [])]
      rfl
  back := by
    obtain ⟨entries, issued⟩ := r
    rcases List.eq_nil_or_concat entries with rfl | ⟨l, ⟨k, v⟩, rfl⟩
    · rw [back?, h.tail]
      rfl
    · rw [List.concat_eq_append] at h ⊢
      simp [back?, h.tail, h.node?]
  head := by
    obtain ⟨_ | ⟨⟨k, v⟩, rest⟩, issued⟩ := r
    · rw [headHandle?, h.head]
      rfl
    · rw [headHandle?, h.head]
      change some (d.handleAt k.index) = some k
      rw [h.handleAt (l := [])]
  tail := by
    obtain ⟨entries, issued⟩ := r
    rcases List.eq_nil_or_concat entries with rfl | ⟨l, ⟨k, v⟩, rfl⟩
    · rw [tailHandle?, h.tail]
      rfl
    · rw [List.concat_eq_append] at h ⊢
      simp [tailHandle?, h.tail, h.handleAt]
  get? := h.get?_eq
  contains k := by
    rw [← h.get?_eq, Deque.get?, Option.isSome_map]
    rfl

/-- The deque knows nothing of a handle. -/
structure Forgets (d : Deque α) (k : Handle) : Prop where
  contains : d.contains k = false
  get? : d.get? k = none
  remove : d.remove k = none
  replace : ∀ v, d.replace k v = none

theorem Lists.forgets (h : d.Lists es) (hk : es.lookup k = none) : d.Forgets k := by
  have hnode : d.nodeOf? k = none := by
    rw [← Option.map_eq_none_iff (f := (·.value)), ← Deque.get?, h.get?_eq, hk]
  refine ⟨?_, ?_, ?_, ?_⟩
  · rw [Deque.contains, hnode]
    rfl
  · rw [Deque.get?, hnode]
    rfl
  · rw [Deque.remove, Deque.contains, hnode]
    rfl
  · intro v
    rw [Deque.replace, hnode]
    rfl

/-! ## Changing a value -/

theorem slotOf_comp_revalued (k : Handle) (v : α) :
    slotOf ∘ Roll.revalued k v = (slotOf : Handle × α → Nat) :=
  funext fun entry => congrArg Handle.index (Roll.fst_revalued k v entry)

/-- In a list of entries the slot tells the handle. -/
theorem eq_of_slot (hnodup : (es.map slotOf).Nodup) {k' : Handle} (hv : (k, v) ∈ es)
    (hw : (k', w) ∈ es) (h : k.index = k'.index) : k = k' :=
  congrArg Prod.fst (List.inj_on_of_nodup_map hnodup hv hw h)

theorem Lists.revalue (h : d.Lists es) (hk : (k, w) ∈ es) (v : α) :
    (d.modifyNode k.index fun node => { node with value := v }).Lists
      (es.map (Roll.revalued k v)) where
  nodup := by
    rw [List.map_map, slotOf_comp_revalued]
    exact h.nodup
  head := by
    rw [List.head?_map, Option.map_map, slotOf_comp_revalued]
    exact h.head
  tail := by
    rw [List.getLast?_map, Option.map_map, slotOf_comp_revalued]
    exact h.tail
  length := by
    rw [List.length_map]
    exact h.length
  slot := by
    intro l' k' v' r' hsplit
    obtain ⟨l, rest, rfl, rfl, hrest⟩ := List.map_eq_append_iff.1 hsplit
    obtain ⟨⟨j, u⟩, r, rfl, hentry, rfl⟩ := List.map_eq_cons_iff.1 hrest
    obtain rfl : j = k' := (Roll.fst_revalued k v (j, u)).symm.trans (congrArg Prod.fst hentry)
    rw [List.getLast?_map, List.head?_map, Option.map_map, Option.map_map, slotOf_comp_revalued,
      getElem?_slots_modifyNode, h.slot rfl]
    split
    · rename_i hslot
      obtain rfl : k = j := eq_of_slot h.nodup hk (w := u) (by simp) hslot
      rw [Roll.revalued, if_pos rfl] at hentry
      cases hentry
      rfl
    · rename_i hslot
      rw [Roll.revalued, if_neg fun hj => hslot (congrArg Handle.index hj.symm)] at hentry
      cases hentry
      rfl
  occupied := by
    intro i g n hslot
    rw [List.map_map, slotOf_comp_revalued]
    rw [getElem?_slots_modifyNode] at hslot
    split at hslot
    · obtain ⟨⟨g, node⟩, hold, heq⟩ := Option.map_eq_some_iff.1 hslot
      cases node <;> cases heq
      exact h.occupied hold
    · exact h.occupied hslot
  free := h.free.modifyNode _ _

/-! ## Through every call -/

/-- The deque stands for the list. The handles that were given out for a slot are those of its
generations so far, and that of the entry there. -/
structure Tracks (d : Deque α) (r : Roll α) : Prop where
  lists : d.Lists r.entries
  nodup : r.issued.Nodup
  issued : ∀ k, k ∈ r.issued ↔ k ∈ r.handles ∨ k.generation < d.generation k.index

theorem tracks_empty : (empty : Deque α).Tracks .empty := by
  refine ⟨lists_empty, .nil, ?_⟩
  intro k
  have hk : ¬ k.generation < (empty : Deque α).generation k.index := Nat.not_lt_zero _
  simp [Roll.empty, Roll.handles, hk]

/-- An entry that is there has the generation of its slot. -/
theorem Tracks.generation (h : d.Tracks r) (hk : k ∈ r.handles) :
    d.generation k.index = k.generation := by
  obtain ⟨⟨k, v⟩, hmem, rfl⟩ := List.mem_map.1 hk
  obtain ⟨l, rest, hes⟩ := List.append_of_mem hmem
  exact (hes ▸ h.lists).generation

/-- A slot's generation counts the entries that have left it. -/
theorem Tracks.removals (h : d.Tracks r) (i : Nat) : r.removals i = d.generation i := by
  have hperm : (r.issued.filter fun k => k.index = i ∧ k ∉ r.handles).Perm
      ((List.range (d.generation i)).map (Handle.mk i)) := by
    refine (List.perm_ext_iff_of_nodup (h.nodup.filter _) ?_).2 ?_
    · exact List.nodup_range.map fun g g' heq => congrArg Handle.generation heq
    · intro k
      simp only [List.mem_filter, decide_eq_true_eq, List.mem_map, List.mem_range, h.issued]
      constructor
      · rintro ⟨hk, rfl, hgone⟩
        exact ⟨k.generation, hk.resolve_left hgone, rfl⟩
      · rintro ⟨g, hg, rfl⟩
        refine ⟨.inr hg, rfl, ?_⟩
        intro hthere
        exact hg.ne (h.generation hthere).symm
  rw [Roll.removals, hperm.length_eq, List.length_map, List.length_range]

/-- A new entry gets a handle that was never given out. -/
theorem Tracks.add {entries : List (Handle × α)} (h : d.Tracks r) (hlists : e.Lists entries)
    (hentries : entries.Perm ((k, v) :: r.entries))
    (hk : k.generation = d.generation k.index)
    (hgeneration : ∀ i, e.generation i = d.generation i) :
    k ∉ r.issued ∧ e.Tracks ⟨entries, k :: r.issued⟩ := by
  have hslots := (hentries.map slotOf).nodup_iff.1 hlists.nodup
  have hthere : k ∉ r.handles := by
    intro hmem
    obtain ⟨entry, hentry, rfl⟩ := List.mem_map.1 hmem
    exact (List.nodup_cons.1 hslots).1 (List.mem_map_of_mem (f := slotOf) (a := entry) hentry)
  have hnew : k ∉ r.issued := by
    rw [h.issued, hk]
    exact fun hmem => hmem.elim hthere (lt_irrefl _)
  refine ⟨hnew, hlists, List.nodup_cons.2 ⟨hnew, h.nodup⟩, ?_⟩
  intro k'
  have hmem : k' ∈ entries.map (·.1) ↔ k' = k ∨ k' ∈ r.handles := by
    rw [(hentries.map (·.1)).mem_iff]
    exact List.mem_cons
  rw [hgeneration, List.mem_cons, h.issued, ← or_assoc]
  exact or_congr_left hmem.symm

/-- The node in a slot is taken out without a fault, and the deque stands for the list then. -/
structure Takes (d : Deque α) (i : Nat) (v : α) (e : Deque α) (r : Roll α) : Prop where
  unlink : d.unlink i = some (v, e)
  tracks : e.Tracks r
  grows : ∀ j, d.generation j ≤ e.generation j
  sound : e.Fits → d.tryUnlink i = .ok (some (v, e))

theorem Tracks.takes (h : d.Tracks ⟨l ++ (k, v) :: rest, issued⟩) :
    ∃ e, d.Takes k.index v e ⟨l ++ rest, issued⟩ := by
  obtain ⟨e, he, hlists⟩ := h.lists.unlink
  have hgeneration := fun j => generation_unlink (j := j) he
  refine ⟨e, he, ⟨hlists, h.nodup, ?_⟩, ?_, h.lists.tryUnlink_eq he⟩
  · intro k'
    have hk := h.lists.generation
    have hout : ∀ {k' : Handle}, k' ∈ (l ++ rest).map (·.1) → k'.index ≠ k.index := by
      intro k' hmem hindex
      obtain ⟨entry, hentry, rfl⟩ := List.mem_map.1 hmem
      have hslot := slot_notMem h.lists.nodup
      rw [← hindex] at hslot
      exact (List.mem_append.1 hentry).elim (fun hl => hslot.1 (List.mem_map_of_mem hl))
        fun hr => hslot.2 (List.mem_map_of_mem hr)
    have hmem : k' ∈ (l ++ (k, v) :: rest).map (·.1) ↔ k' = k ∨ k' ∈ (l ++ rest).map (·.1) := by
      rw [(List.perm_middle.map _).mem_iff]
      exact List.mem_cons
    rw [h.issued, Roll.handles, hmem, hgeneration]
    -- only in the slot that is left do the generations go up, by the one that goes
    by_cases hindex : k'.index = k.index
    · have heq : k' = k ↔ k'.generation = k.generation := by
        cases k; cases k'
        simp only [Handle.mk.injEq] at hindex ⊢
        exact and_iff_right hindex
      rw [if_pos hindex, hindex, hk, heq, Nat.lt_succ_iff, Nat.le_iff_lt_or_eq]
      have hnot : k' ∉ (l ++ rest).map (·.1) := fun hmem => hout hmem hindex
      tauto
    · have hne : k' ≠ k := fun heq => hindex (congrArg Handle.index heq)
      rw [if_neg hindex, Nat.add_zero, or_iff_right hne]
      rfl
  · intro j
    rw [hgeneration]
    exact Nat.le_add_right _ _

/-- Visiting the entries `rest` behind the entries `l` asks about each of them once. -/
theorem Tracks.retainFrom (keep : List α → α → Bool) (asked : List α) {fuel : Nat}
    (h : d.Tracks ⟨l ++ rest, issued⟩) (hfuel : rest.length ≤ fuel) :
    ∃ e, (d.retainFrom (asking keep) fuel (rest.head?.map slotOf)).run asked =
        (e, asked ++ rest.map (·.2)) ∧
      e.Tracks ⟨l ++ Roll.sift keep asked rest, issued⟩ ∧
      (∀ i, d.generation i ≤ e.generation i) ∧
      (e.Fits → d.tryRetainFrom (asking keep) fuel (rest.head?.map slotOf) asked =
        .ok (e, asked ++ rest.map (·.2))) := by
  induction rest generalizing l d fuel asked with
  | nil =>
      refine ⟨d, ?_, h, fun _ => le_rfl, fun _ => ?_⟩
      · rw [List.map_nil, List.append_nil]
        cases fuel <;> rfl
      · rw [List.map_nil, List.append_nil]
        cases fuel <;> rfl
  | cons entry rest ih =>
      obtain ⟨k, v⟩ := entry
      obtain ⟨fuel, rfl⟩ : ∃ n, fuel = n + 1 := Nat.exists_eq_add_one.2 (Nat.zero_lt_of_lt hfuel)
      have hrest := Nat.le_of_succ_le_succ hfuel
      have hasked : asked ++ ((k, v) :: rest).map (·.2) = asked ++ [v] ++ rest.map (·.2) := by simp
      have hnode := h.lists.node?
      rw [hasked, Roll.sift]
      simp only [List.head?_cons, Option.map_some, Deque.retainFrom, tryRetainFrom, hnode]
      cases hkeep : keep asked v with
      | true =>
          have hkept : d.Tracks ⟨(l ++ [(k, v)]) ++ rest, issued⟩ := by
            rw [List.append_assoc]
            exact h
          obtain ⟨e, hrun, htracks, hgrows, hsound⟩ := ih (asked ++ [v]) hkept hrest
          refine ⟨e, ?_, ?_, hgrows, ?_⟩
          · rw [StateT.run_bind, run_asking, hkeep]
            exact hrun
          · rw [List.append_assoc] at htracks
            exact htracks
          · intro hfits
            rw [run_asking, hkeep]
            exact hsound hfits
      | false =>
          obtain ⟨e, hremoved⟩ := h.takes
          -- the node that comes next was read before this one left
          obtain ⟨f, hrun, htracks, hgrows, hsound⟩ := ih (asked ++ [v]) hremoved.tracks hrest
          refine ⟨f, ?_, htracks, fun i => (hremoved.grows i).trans (hgrows i), ?_⟩
          · rw [StateT.run_bind, run_asking, hkeep]
            rw [show d.unlink (slotOf (k, v)) = _ from hremoved.unlink]
            exact hrun
          · intro hfits
            have hfits' : e.Fits := fun i => (hgrows i).trans_lt (hfits i)
            rw [run_asking, hkeep]
            change (d.tryUnlink k.index >>= _) = _
            rw [hremoved.sound hfits']
            exact hsound hfits

/-- The call is answered as the list says, without a fault as long as the generations fit. -/
structure Follows (d : Deque α) (c : Call α) (r r' : Roll α) : Prop where
  step : r.Step c (d.call c).1 r'
  tracks : (d.call c).2.Tracks r'
  grows : ∀ i, d.generation i ≤ (d.call c).2.generation i
  sound : (d.call c).2.Fits → d.tryCall c = .ok (d.call c)

/-- A call that takes a node out follows from what taking it out does. -/
theorem Takes.follows {c : Call α} {i : Nat} (h : d.Takes i v e r')
    (hstep : r.Step c (.value (some v)) r') (hcall : d.call c = (.value (some v), e))
    (htry : d.tryCall c = do return d.replied (← d.tryUnlink i)) : d.Follows c r r' := by
  refine ⟨?_, ?_, ?_, ?_⟩ <;> rw [hcall]
  · exact hstep
  · exact h.tracks
  · exact h.grows
  · intro hfits
    rw [htry, h.sound hfits]
    rfl

/-- A call that finds nothing leaves the deque as it is. -/
theorem Tracks.follows_none {c : Call α} (h : d.Tracks r) (hstep : r.Step c (.value none) r)
    (hcall : d.call c = (.value none, d)) (htry : d.tryCall c = .ok (.value none, d)) :
    d.Follows c r r := by
  refine ⟨?_, ?_, ?_, ?_⟩ <;> rw [hcall]
  · exact hstep
  · exact h
  · exact fun _ => le_rfl
  · exact fun _ => htry

theorem Tracks.push (h : d.Tracks r) (v : α) : ∃ r', d.Follows (.push v) r r' := by
  obtain ⟨hnew, htracks⟩ := h.add (h.lists.push v) (List.perm_append_singleton _ _)
    (generation_fst_push d v) (generation_push d v)
  refine ⟨_, .push v hnew, htracks, fun i => (generation_push d v i).ge, fun _ => ?_⟩
  rw [tryCall, h.lists.tryPush_eq]
  rfl

theorem Tracks.unshift (h : d.Tracks r) (v : α) : ∃ r', d.Follows (.unshift v) r r' := by
  obtain ⟨hnew, htracks⟩ := h.add (h.lists.unshift v) (.refl _)
    (generation_fst_unshift d v) (generation_unshift d v)
  refine ⟨_, .unshift v hnew, htracks, fun i => (generation_unshift d v i).ge, fun _ => ?_⟩
  rw [tryCall, h.lists.tryUnshift_eq]
  rfl

theorem Tracks.shift (h : d.Tracks r) : ∃ r', d.Follows .shift r r' := by
  obtain ⟨_ | ⟨⟨k, v⟩, rest⟩, issued⟩ := r
  · have hhead : d.head = none := h.lists.head
    refine ⟨_, h.follows_none (.shift _) ?_ ?_⟩
    · rw [call, h.lists.shift_nil]
      rfl
    · rw [tryCall, tryShift, hhead]
      rfl
  · obtain ⟨e, he⟩ := h.takes (l := [])
    have hhead : d.head = some k.index := h.lists.head
    refine ⟨_, he.follows (.shift _) ?_ ?_⟩
    · rw [call, Deque.shift, hhead, Option.bind_some, he.unlink]
      rfl
    · rw [tryCall, tryShift, hhead]

theorem Tracks.pop (h : d.Tracks r) : ∃ r', d.Follows .pop r r' := by
  obtain ⟨entries, issued⟩ := r
  rcases List.eq_nil_or_concat entries with rfl | ⟨l, ⟨k, v⟩, rfl⟩
  · have htail : d.tail = none := h.lists.tail
    refine ⟨_, h.follows_none (.pop _) ?_ ?_⟩
    · rw [call, Deque.pop, htail]
      rfl
    · rw [tryCall, tryPop, htail]
      rfl
  · rw [List.concat_eq_append] at h ⊢
    have hstep := Roll.Step.pop ⟨l ++ [(k, v)], issued⟩
    rw [List.getLast?_concat, List.dropLast_concat] at hstep
    have htail : d.tail = some k.index := by
      rw [h.lists.tail, List.getLast?_concat]
      rfl
    obtain ⟨e, he⟩ := h.takes
    rw [List.append_nil] at he
    refine ⟨_, he.follows hstep ?_ ?_⟩
    · rw [call, Deque.pop, htail, Option.bind_some, he.unlink]
      rfl
    · rw [tryCall, tryPop, htail]

theorem Tracks.remove (h : d.Tracks r) (k : Handle) : ∃ r', d.Follows (.remove k) r r' := by
  have hstep := Roll.Step.remove r k
  cases hk : r.entries.lookup k with
  | none =>
      have herase : r.entries.eraseP (·.1 = k) = r.entries := by
        refine List.eraseP_of_forall_not fun entry hentry => ?_
        have hne := List.lookup_eq_none_iff.1 hk entry hentry
        simpa using (bne_iff_ne.1 hne).symm
      have hforgets := h.lists.forgets hk
      rw [hk, herase] at hstep
      refine ⟨_, h.follows_none hstep ?_ ?_⟩
      · rw [call, hforgets.remove]
        rfl
      · rw [tryCall, tryRemove, hforgets.contains]
        rfl
  | some v =>
      rw [hk] at hstep
      obtain ⟨entries, issued⟩ := r
      obtain ⟨l, rest, rfl, hl⟩ := List.lookup_eq_some_iff.1 hk
      have herase : (l ++ (k, v) :: rest).eraseP (·.1 = k) = l ++ rest := by
        rw [List.eraseP_append_right, List.eraseP_cons_of_pos]
        · exact decide_eq_true rfl
        intro entry hentry
        simpa using (bne_iff_ne.1 (hl entry hentry)).symm
      rw [herase] at hstep
      obtain ⟨e, he⟩ := h.takes
      have hcontains : d.contains k = true := by
        rw [Deque.contains, h.lists.nodeOf?]
        rfl
      refine ⟨_, he.follows hstep ?_ ?_⟩
      · rw [call, Deque.remove, if_pos hcontains, he.unlink]
        rfl
      · rw [tryCall, tryRemove, if_pos hcontains]

theorem Tracks.replace (h : d.Tracks r) (k : Handle) (v : α) :
    ∃ r', d.Follows (.replace k v) r r' := by
  have hstep := Roll.Step.replace r k v
  cases hk : r.entries.lookup k with
  | none =>
      have hsame : r.entries.map (Roll.revalued k v) = r.entries := by
        refine (List.map_congr_left (g := id) fun entry hentry => ?_).trans (List.map_id _)
        have hne := List.lookup_eq_none_iff.1 hk entry hentry
        exact if_neg (bne_iff_ne.1 hne).symm
      have hforgets := h.lists.forgets hk
      rw [hk, hsame] at hstep
      refine ⟨_, h.follows_none hstep ?_ ?_⟩
      · rw [call, hforgets.replace]
        rfl
      · rw [tryCall, hforgets.replace]
        rfl
  | some w =>
      rw [hk] at hstep
      obtain ⟨l, rest, hentries, -⟩ := List.lookup_eq_some_iff.1 hk
      have hreplace : d.replace k v =
          some (w, d.modifyNode k.index fun node => { node with value := v }) := by
        have hsplit := h.lists
        rw [hentries] at hsplit
        rw [Deque.replace, hsplit.nodeOf?]
        rfl
      have hlists := h.lists.revalue (k := k) (w := w) (by simp [hentries]) v
      refine ⟨⟨r.entries.map (Roll.revalued k v), r.issued⟩, ?_, ?_, ?_, ?_⟩
      all_goals rw [call, hreplace]
      · exact hstep
      · refine ⟨hlists, h.nodup, ?_⟩
        intro k'
        change _ ↔ _ ∨ _ < (d.modifyNode _ _).generation _
        rw [generation_modifyNode, h.issued, Roll.handles, Roll.handles, List.map_map,
          funext (Roll.fst_revalued k v) (f := Prod.fst ∘ Roll.revalued k v)]
      · exact fun i => (generation_modifyNode d i _ _).ge
      · intro _
        rw [tryCall, hreplace]
        rfl

theorem Tracks.retain (h : d.Tracks r) (keep : List α → α → Bool) :
    ∃ r', d.Follows (.retain keep) r r' := by
  obtain ⟨entries, issued⟩ := r
  obtain ⟨e, hrun, htracks, hgrows, hsound⟩ :=
    Tracks.retainFrom (l := []) keep [] h le_rfl
  have hlength : d.length = entries.length := h.lists.length
  have hhead : d.head = entries.head?.map slotOf := h.lists.head
  rw [← hlength, ← hhead] at hrun hsound
  refine ⟨⟨Roll.sift keep [] entries, issued⟩, ?_, ?_, ?_, ?_⟩
  all_goals rw [call, retainM, hrun]
  · exact .retain _ keep
  · exact htracks
  · exact hgrows
  · intro hfits
    rw [tryCall, tryRetain, hsound hfits]
    rfl

theorem Tracks.call (h : d.Tracks r) (c : Call α) : ∃ r', d.Follows c r r' := by
  cases c with
  | push v => exact h.push v
  | unshift v => exact h.unshift v
  | shift => exact h.shift
  | pop => exact h.pop
  | remove k => exact h.remove k
  | replace k v => exact h.replace k v
  | retain keep => exact h.retain keep

theorem Tracks.serve (h : d.Tracks r) (calls : List (Call α)) :
    ∃ r', r.Run calls (d.serve calls).1 r' ∧ (d.serve calls).2.Tracks r' ∧
      (∀ i, d.generation i ≤ (d.serve calls).2.generation i) ∧
      ((d.serve calls).2.Fits → d.tryServe calls = .ok (d.serve calls)) := by
  induction calls generalizing d r with
  | nil => exact ⟨r, .nil r, h, fun _ => le_rfl, fun _ => rfl⟩
  | cons c rest ih =>
      obtain ⟨r', hcall⟩ := h.call c
      obtain ⟨r'', hrun, htracks, hgrows, hsound⟩ := ih hcall.tracks
      refine ⟨r'', .cons hcall.step hrun, htracks, fun i => (hcall.grows i).trans (hgrows i), ?_⟩
      intro hfits
      have hfits' : (d.call c).2.Fits := fun i => (hgrows i).trans_lt (hfits i)
      rw [tryServe, hcall.sound hfits']
      change ((d.call c).2.tryServe rest >>= _) = _
      rw [hsound hfits]
      rfl

/-- Whatever a deque is asked, one call after the other, it answers as the list of its entries
does: that list is what is seen of it, a new entry gets a handle that no entry had before, and the
handle of an entry that has left means nothing, however its slot is used later. No link, index or
length ever is at fault, as long as fewer than `2 ^ 64` entries leave each slot. -/
theorem handles_stable (calls : List (Call α)) :
    ∃ r, Roll.Run .empty calls (empty.serve calls).1 r ∧ (empty.serve calls).2.Reads r ∧
      ((empty.serve calls).1.filterMap Reply.handle?).Nodup ∧
      (∀ k ∈ r.issued, k ∉ r.handles →
        ∀ later, ((empty.serve calls).2.serve later).2.Forgets k) ∧
      ((∀ i, r.removals i < 2 ^ 64) → empty.tryServe calls = .ok (empty.serve calls)) := by
  obtain ⟨r, hrun, htracks, -, hsound⟩ := tracks_empty.serve calls
  refine ⟨r, hrun, htracks.lists.reads, ?_, ?_, ?_⟩
  · have hissued := hrun.issued
    rw [Roll.empty, List.append_nil] at hissued
    exact List.nodup_reverse.1 (hissued ▸ htracks.nodup)
  · intro k hk hgone later
    obtain ⟨r', hlater, htracks', -⟩ := htracks.serve later
    exact htracks'.lists.forgets (Roll.lookup_eq_none_iff.2 (hlater.notMem_handles hk hgone))
  · intro hremovals
    refine hsound fun i => ?_
    rw [← htracks.removals]
    exact hremovals i

/-- The slot of an entry that has left is used again, under another handle. -/
example : (empty.serve [.push 'a', .shift, .push 'b']).2.headHandle? = some ⟨0, 1⟩ := by decide

end Deque

end PooledSql
