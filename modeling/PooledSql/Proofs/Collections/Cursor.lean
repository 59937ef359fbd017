import Mathlib.Data.List.Nodup
import PooledSql.Proofs.Collections.Roll
import PooledSql.Proofs.Collections.Tour

/-!
# Cursors over a deque that changes

A cursor holds handles, and between two of its steps the deque may be changed in any way: by calls
and by other cursors. What carries a cursor through is a cut of the list of handles. Everything
that it has visited and that is still there stands in front of the cut, in the order of the visits,
and the node that it is about to visit, if that is still there, comes right behind. A change keeps
some of the handles and adds new ones at the ends (`Roll.Edit`), which moves no cut.
-/

namespace PooledSql

variable {α : Type}

/-! ## Many hands on one deque -/

/-- The handles of a deque from front to back. -/
def Deque.handles (d : Deque α) : List Handle := d.entries.map (·.1)

namespace Cursor

/-- What is done with a deque and the cursors over it, which are numbered. -/
inductive Move (α : Type) where
  | call (c : Deque.Call α)
  | next (i : Nat)
  | remove (i : Nat)
  | reset (i : Nat)
  /-- Cursor `i` becomes a copy of cursor `j`. -/
  | copy (i j : Nat)

/-- The move gives the cursor another position than its own steps do. -/
def Move.restarts (i : Nat) : Move α → Bool
  | .reset j | .copy j _ => i == j
  | _ => false

/-- The move brings a new node. -/
def Move.adds : Move α → Bool
  | .call (.push _) | .call (.unshift _) => true
  | _ => false

/-- The move is the cursor's own removal. -/
def Move.isRemoval (i : Nat) : Move α → Bool
  | .remove j => i == j
  | _ => false

/-- What a move is answered with. -/
inductive Answer (α : Type) where
  | reply (r : Deque.Reply α)
  | visited (k : Option Handle)
  | removed (v : Option α)
  | placed

/-- A deque and the cursors over it. -/
structure Shared (α : Type) where
  deque : Deque α
  cursors : Nat → Cursor

namespace Shared

/-- An empty deque, and cursors that are nowhere. -/
def start : Shared α := ⟨.empty, fun _ => {}⟩

/-- Give a cursor another position. -/
def place (s : Shared α) (i : Nat) (c : Cursor) : Shared α :=
  { s with cursors := fun j => if j = i then c else s.cursors j }

/-- The answer to a move, and what is there after it. -/
def act (s : Shared α) : Move α → Answer α × Shared α
  | .call c => (.reply (s.deque.call c).1, { s with deque := (s.deque.call c).2 })
  | .next i =>
    let (k, c) := (s.cursors i).next s.deque
    (.visited k, s.place i c)
  | .remove i =>
    match (s.cursors i).remove s.deque with
    | (some (v, d), c) => (.removed (some v), { s.place i c with deque := d })
    | (none, c) => (.removed none, s.place i c)
  | .reset i => (.placed, s.place i ((s.cursors i).reset s.deque))
  | .copy i j => (.placed, s.place i (s.cursors j))

/-- What is there after moves in turn. -/
def after (s : Shared α) (moves : List (Move α)) : Shared α :=
  moves.foldl (fun s m => (s.act m).2) s

/-- Moves in turn with their answers. -/
def history (s : Shared α) : List (Move α) → List (Move α × Answer α)
  | [] => []
  | m :: rest => (m, (s.act m).1) :: (s.act m).2.history rest

/-- The node that a cursor is about to visit is still there after a move, unless that move is the
cursor's own removal. -/
def spares (s : Shared α) (i : Nat) (m : Move α) : Bool :=
  m.isRemoval i || ((s.cursors i).next s.deque).1.all (s.act m).2.deque.contains

/-- No other hand takes out the node that the cursor is about to visit. -/
def undisturbed (i : Nat) : Shared α → List (Move α) → Bool
  | _, [] => true
  | s, m :: rest => s.spares i m && undisturbed i (s.act m).2 rest

end Shared

/-- The handle that a cursor yields with a move. -/
def yield? (i : Nat) : Move α × Answer α → Option Handle
  | (.next j, .visited k) => if i = j then k else none
  | _ => none

/-- The handles that a cursor has yielded, in order. -/
def yielded (i : Nat) (log : List (Move α × Answer α)) : List Handle := log.filterMap (yield? i)

/-- The handle that a cursor yielded last, unless it has made a removal since. -/
def latest (i : Nat) (log : List (Move α × Answer α)) : Option Handle :=
  log.foldl (fun last entry =>
    if entry.1.isRemoval i then none else (yield? i entry).or last) none

/-- What can be said of a cursor after moves none of which restarts it. -/
structure Survey (i : Nat) (s : Shared α) (moves : List (Move α)) : Prop where
  /-- What it yields next is there. -/
  live : ∀ k, ((s.after moves).act (.next i)).1 = .visited (some k) →
    (s.after moves).deque.contains k = true
  nodup : (yielded i (s.history moves)).Nodup
  /-- The nodes that it has visited and that are there stand in the order of the visits. -/
  order : ((yielded i (s.history moves)).filter (s.after moves).deque.contains).Sublist
    (s.after moves).deque.handles
  /-- A removal takes out the node visited last and no other, if it is still there. -/
  removes : ∀ k, latest i (s.history moves) = some k →
    ((s.after moves).act (.remove i)).1 = .removed ((s.after moves).deque.get? k) ∧
      ((s.after moves).act (.remove i)).2.deque.entries =
        (s.after moves).deque.entries.eraseP (·.1 = k)
  /-- Without a node visited since the last removal it does nothing. -/
  idle : latest i (s.history moves) = none →
    ((s.after moves).act (.remove i)).1 = .removed none ∧
      ((s.after moves).act (.remove i)).2.deque = (s.after moves).deque
  /-- The end, once found, is final. -/
  final : (.next i, .visited none) ∈ s.history moves →
    ((s.after moves).act (.next i)).1 = .visited none
  /-- If nothing new comes and nobody else takes the next node away, it visits in their order all
  the nodes that were there when it set out, except those that were removed before. -/
  complete : (∀ m ∈ moves, m.adds = false) → s.undisturbed i moves = true →
    (yielded i (s.history moves)).Sublist s.deque.handles ∧
      (((s.after moves).act (.next i)).1 = .visited none → ∀ k ∈ s.deque.handles,
        k ∈ yielded i (s.history moves) ∨ (s.after moves).deque.contains k = false)

end Cursor

/-! ## What a change does to the handles -/

namespace Roll

open Deque

variable {r r' : Roll α} {c : Call α} {reply : Reply α}

/-- Some handles stay, in their order, and new ones come to the ends. -/
structure Edit (r r' : Roll α) (keep : Handle → Bool) (front back : List Handle) : Prop where
  handles : r'.handles = front ++ (r.handles.filter keep ++ back)
  new : ∀ k ∈ front ++ back, k ∉ r.issued
  issued : r.issued ⊆ r'.issued

theorem Edit.refl (r : Roll α) : r.Edit r (fun _ => true) [] [] where
  handles := by simp
  new := by simp
  issued := fun _ hk => hk

/-- A sublist of a list without repetitions is what its members pick out. -/
theorem eq_filter_of_sublist {l l' : List Handle} (h : l'.Sublist l) (hnodup : l.Nodup) :
    l' = l.filter (· ∈ l') := by
  have hsub : l'.Sublist (l.filter (· ∈ l')) := by
    have hfilter := h.filter (· ∈ l')
    rwa [List.filter_eq_self.2 fun k hk => decide_eq_true hk] at hfilter
  refine hsub.eq_of_length ?_
  refine ((List.perm_ext_iff_of_nodup (hnodup.sublist h) (hnodup.filter _)).2 fun k => ?_).length_eq
  simp only [List.mem_filter, decide_eq_true_eq]
  exact ⟨fun hk => ⟨h.subset hk, hk⟩, fun hk => hk.2⟩

theorem edit_of_sublist (h : r'.handles.Sublist r.handles) (hissued : r'.issued = r.issued)
    (hnodup : r.handles.Nodup) : r.Edit r' (· ∈ r'.handles) [] [] where
  handles := by
    rw [List.nil_append, List.append_nil]
    exact eq_filter_of_sublist h hnodup
  new := by simp
  issued := fun _ hk => hissued ▸ hk

theorem Step.edit (h : r.Step c reply r') (hnodup : r.handles.Nodup) :
    ∃ keep front back, r.Edit r' keep front back ∧
      (reply.handle? = none → front = [] ∧ back = []) := by
  have hsub : ∀ {r' : Roll α}, r'.handles.Sublist r.handles → r'.issued = r.issued →
      ∃ keep front back, r.Edit r' keep front back ∧
        (reply.handle? = none → front = [] ∧ back = []) :=
    fun h hissued => ⟨_, _, _, edit_of_sublist h hissued hnodup, fun _ => ⟨rfl, rfl⟩⟩
  cases h with
  | @push k v hnew =>
      refine ⟨fun _ => true, [], [k], ⟨?_, ?_, List.subset_cons_self k _⟩, ?_⟩
      · simp [handles]
      · simpa using hnew
      · rintro ⟨⟩
  | @unshift k v hnew =>
      refine ⟨fun _ => true, [k], [], ⟨?_, ?_, List.subset_cons_self k _⟩, ?_⟩
      · simp [handles]
      · simpa using hnew
      · rintro ⟨⟩
  | shift => exact hsub (r.entries.tail_sublist.map _) rfl
  | pop => exact hsub (r.entries.dropLast_sublist.map _) rfl
  | remove k => exact hsub (List.eraseP_sublist.map _) rfl
  | replace k v =>
      refine hsub ?_ rfl
      rw [handles, List.map_map, funext (fst_revalued k v) (f := Prod.fst ∘ revalued k v)]
      exact .refl _
  | retain keep => exact hsub ((sift_sublist keep [] r.entries).map _) rfl

theorem Step.of_remove {k : Handle} (h : r.Step (.remove k) reply r') :
    reply = .value (r.entries.lookup k) ∧ r'.entries = r.entries.eraseP (·.1 = k) := by
  cases h
  exact ⟨rfl, rfl⟩

/-- Only what brings a new node is answered with a handle. -/
theorem Step.handle? (h : r.Step c reply r') (hadds : (Cursor.Move.call c).adds = false) :
    reply.handle? = none := by
  cases h with
  | push => cases hadds
  | unshift => cases hadds
  | _ => rfl

end Roll

namespace Deque

variable {d : Deque α} {r : Roll α} {k : Handle}

theorem Tracks.handles (h : d.Tracks r) : d.handles = r.handles := by
  rw [Deque.handles, h.lists.entries]
  rfl

theorem Tracks.nodup_handles (h : d.Tracks r) : r.handles.Nodup := h.lists.nodup_fst

theorem Tracks.contains_iff (h : d.Tracks r) : d.contains k = true ↔ k ∈ r.handles := by
  rw [h.lists.reads.contains, Option.isSome_iff_ne_none, ne_eq, Roll.lookup_eq_none_iff, not_not]

theorem Tracks.remove_value (h : d.Tracks r) (k : Handle) :
    (d.remove k).map (·.1) = d.get? k := by
  obtain ⟨r', hcall⟩ := h.call (.remove k)
  have hreply := hcall.step.of_remove.1
  rw [Deque.call] at hreply
  rw [h.lists.get?_eq]
  cases hremove : d.remove k with
  | none =>
      rw [hremove] at hreply
      exact Reply.value.inj hreply
  | some removed =>
      rw [hremove] at hreply
      exact Reply.value.inj hreply

theorem Tracks.contains_eq (h : d.Tracks r) : d.contains = (decide <| · ∈ r.handles) := by
  funext k
  rw [Bool.eq_iff_iff, h.contains_iff, decide_eq_true_eq]

end Deque

namespace Cursor

variable {d : Deque α} {r r' : Roll α} {c : Cursor} {k : Handle} {keep : Handle → Bool}
variable {front back ys start : List Handle} {s : Shared α} {i : Nat} {m : Move α}

/-! ## One step -/

/-- The next node is visited if it is still there, and the one behind it is the next then. -/
theorem next_cases (h : d.Tracks r) (c : Cursor) :
    (∃ k l rest, c.upcoming = some k ∧ r.handles = l ++ k :: rest ∧
      c.next d = (some k, ⟨rest.head?, some k⟩)) ∨
    (c.next d = (none, { c with upcoming := none }) ∧
      ∀ k, c.upcoming = some k → k ∉ r.handles) := by
  obtain ⟨upcoming, last⟩ := c
  cases upcoming with
  | none =>
      refine .inr ⟨rfl, ?_⟩
      rintro k ⟨⟩
  | some k =>
      cases hn : d.nodeOf? k with
      | none =>
          refine .inr ⟨by simp only [next, hn], ?_⟩
          rintro _ ⟨⟩ hk
          have hcontains := h.contains_iff.2 hk
          rw [Deque.contains, hn] at hcontains
          cases hcontains
      | some n =>
          obtain ⟨l, rest, hentries⟩ := h.lists.mem_of_nodeOf? hn
          refine .inl ⟨k, l.map (·.1), rest.map (·.1), rfl, ?_, ?_⟩
          · rw [Roll.handles, hentries]
            simp
          · have hlists := h.lists
            rw [hentries] at hlists
            rw [List.head?_map]
            exact hlists.next_eq rfl

/-- A cut of the handles: in front of it is what was visited, right behind it what comes next. -/
structure Keeps (c : Cursor) (r : Roll α) (ys : List Handle) : Prop where
  nodup : ys.Nodup
  visited : ys ⊆ r.issued
  upcoming : ∀ k, c.upcoming = some k → k ∈ r.issued
  cut : ∃ l rest, r.handles = l ++ rest ∧ (ys.filter (· ∈ r.handles)).Sublist l ∧
    ∀ k, c.upcoming = some k → k ∈ r.handles → rest.head? = some k

theorem keeps_atFront (h : d.Tracks r) : (atFront d).Keeps r [] := by
  have hhead : (atFront d).upcoming = r.handles.head? := by
    rw [Roll.handles, List.head?_map]
    exact h.lists.reads.head
  refine ⟨.nil, List.nil_subset _, ?_, [], r.handles, rfl, .slnil, ?_⟩
  · intro k hk
    rw [hhead] at hk
    exact (h.issued k).2 (.inl (List.mem_of_head? hk))
  · intro k hk _
    rwa [hhead] at hk

/-- A change of the deque moves no cut. -/
theorem Keeps.edit (h : c.Keeps r ys) (hedit : r.Edit r' keep front back) : c.Keeps r' ys := by
  obtain ⟨l, rest, hcut, hys, hnext⟩ := h.cut
  -- of what was given out before, the change only keeps what passes the test
  have hmem : ∀ k ∈ r.issued, (k ∈ r'.handles ↔ k ∈ r.handles ∧ keep k = true) := by
    intro k hk
    have hnew : k ∉ front ++ back := fun hmem => hedit.new k hmem hk
    rw [List.mem_append, not_or] at hnew
    simp [hedit.handles, hnew.1, hnew.2]
  refine ⟨h.nodup, fun k hk => hedit.issued (h.visited hk),
    fun k hk => hedit.issued (h.upcoming k hk),
    front ++ l.filter keep, rest.filter keep ++ back, ?_, ?_, ?_⟩
  · rw [hedit.handles, hcut, List.filter_append]
    simp
  · have hfilter : ys.filter (· ∈ r'.handles) = (ys.filter (· ∈ r.handles)).filter keep := by
      rw [List.filter_filter]
      refine List.filter_congr fun k hk => ?_
      rw [Bool.eq_iff_iff, decide_eq_true_eq, hmem k (h.visited hk), Bool.and_eq_true,
        decide_eq_true_eq, and_comm]
    rw [hfilter]
    exact (hys.filter keep).trans (List.sublist_append_right _ _)
  · intro k hk hthere
    obtain ⟨hold, hkeep⟩ := (hmem k (h.upcoming k hk)).1 hthere
    obtain ⟨tail, rfl⟩ := List.head?_eq_some_iff.1 (hnext k hk hold)
    rw [List.filter_cons_of_pos hkeep]
    rfl

/-- In a list without repetitions there is one place to cut in front of an entry. -/
theorem eq_of_cut {l l' rest rest' : List Handle} (h : r.handles = l' ++ k :: rest')
    (h' : r.handles = l ++ k :: rest) (hnodup : r.handles.Nodup) : l' = l ∧ rest' = rest := by
  rw [h] at hnodup
  have hl : k ∉ l' := fun hmem => (List.nodup_append'.1 hnodup).2.2 hmem List.mem_cons_self
  have hrest : k ∉ rest' := (List.nodup_cons.1 (List.nodup_append'.1 hnodup).2.1).1
  obtain ⟨hleft, -, hright⟩ := (List.append_cons_inj_of_notMem hl hrest).1 (h.symm.trans h')
  exact ⟨hleft, hright⟩

/-- A visit moves the cut behind the node that is visited, which was not visited before. -/
theorem Keeps.next {l rest : List Handle} (h : c.Keeps r ys) (hk : c.upcoming = some k)
    (hsplit : r.handles = l ++ k :: rest) (hhandles : r.handles ⊆ r.issued)
    (hnodup : r.handles.Nodup) : Keeps ⟨rest.head?, some k⟩ r (ys ++ [k]) := by
  obtain ⟨l', rest', hcut, hys, hnext⟩ := h.cut
  have hthere : k ∈ r.handles := by simp [hsplit]
  obtain ⟨tail, rfl⟩ := List.head?_eq_some_iff.1 (hnext k hk hthere)
  obtain ⟨rfl, rfl⟩ := eq_of_cut hcut hsplit hnodup
  have hnew : k ∉ ys := by
    intro hmem
    rw [hcut] at hnodup
    refine (List.nodup_append'.1 hnodup).2.2 (hys.subset ?_) List.mem_cons_self
    exact List.mem_filter.2 ⟨hmem, decide_eq_true hthere⟩
  refine ⟨?_, ?_, ?_, l' ++ [k], tail, by simp [hsplit], ?_, fun j hj _ => hj⟩
  · exact List.nodup_append'.2 ⟨h.nodup, List.nodup_singleton k, by simpa using hnew⟩
  · exact List.append_subset.2 ⟨h.visited, by simpa using hhandles hthere⟩
  · intro j hj
    exact hhandles (by simp [hsplit, List.mem_of_head? hj])
  · rw [List.filter_append, List.filter_eq_self (l := [k]).2 (by simpa using hthere)]
    exact hys.append (.refl _)

theorem Keeps.congr {c' : Cursor} (h : c.Keeps r ys) (hc : c'.upcoming = c.upcoming) :
    c'.Keeps r ys :=
  ⟨h.nodup, h.visited, hc ▸ h.upcoming, hc ▸ h.cut⟩

/-- At the end nothing comes next. -/
theorem Keeps.halt (h : c.Keeps r ys) : Keeps { c with upcoming := none } r ys := by
  obtain ⟨l, rest, hcut, hys, -⟩ := h.cut
  exact ⟨h.nodup, h.visited, fun _ => nofun, l, rest, hcut, hys, fun _ => nofun⟩

/-- Everything in front of the cut was visited, and what was visited and what stands behind the cut
was there at the start, in this order. -/
def Covers (c : Cursor) (handles ys start : List Handle) : Prop :=
  ∃ l rest, handles = l ++ rest ∧ c.upcoming = rest.head? ∧ l ⊆ ys ∧ (ys ++ rest).Sublist start

theorem covers_atFront (h : d.Tracks r) : (atFront d).Covers d.handles [] d.handles := by
  refine ⟨[], d.handles, rfl, ?_, List.nil_subset _, .refl _⟩
  rw [h.handles, Roll.handles, List.head?_map]
  exact h.lists.reads.head

theorem Covers.congr {c' : Cursor} {handles : List Handle} (h : c.Covers handles ys start)
    (hc : c'.upcoming = c.upcoming) : c'.Covers handles ys start := by
  rw [Covers, hc]
  exact h

/-- The next node is there. -/
theorem Covers.mem_of_upcoming {handles : List Handle} (h : c.Covers handles ys start)
    (hk : c.upcoming = some k) : k ∈ handles := by
  obtain ⟨l, rest, rfl, hupcoming, -, -⟩ := h
  exact List.mem_append_right _ (List.mem_of_head? (hupcoming.symm.trans hk))

theorem Covers.upcoming_eq_none {handles : List Handle} (h : c.Covers handles ys start)
    (hgone : ∀ k, c.upcoming = some k → k ∉ handles) : c.upcoming = none :=
  Option.eq_none_iff_forall_ne_some.2 fun k hk => hgone k hk (h.mem_of_upcoming hk)

/-- Some of the nodes are taken out, but not the next one. -/
theorem Covers.filter {handles : List Handle} (h : c.Covers handles ys start)
    (hthere : ∀ k, c.upcoming = some k → k ∈ handles.filter keep) :
    c.Covers (handles.filter keep) ys start := by
  obtain ⟨l, rest, rfl, hupcoming, hl, hstart⟩ := h
  refine ⟨l.filter keep, rest.filter keep, List.filter_append .., ?_, ?_, ?_⟩
  · cases rest with
    | nil => exact hupcoming
    | cons k tail =>
        rw [List.filter_cons_of_pos (List.mem_filter.1 (hthere k hupcoming)).2]
        exact hupcoming
  · exact fun k hk => hl (List.mem_of_mem_filter hk)
  · exact ((List.Sublist.refl ys).append List.filter_sublist).trans hstart

theorem Covers.next {l rest : List Handle} (h : c.Covers r.handles ys start)
    (hk : c.upcoming = some k) (hsplit : r.handles = l ++ k :: rest) (hnodup : r.handles.Nodup) :
    Covers ⟨rest.head?, some k⟩ r.handles (ys ++ [k]) start := by
  obtain ⟨l', rest', hcut, hupcoming, hl, hstart⟩ := h
  obtain ⟨tail, rfl⟩ := List.head?_eq_some_iff.1 (hupcoming.symm.trans hk)
  obtain ⟨rfl, rfl⟩ := eq_of_cut hcut hsplit hnodup
  refine ⟨l' ++ [k], tail, by simp [hsplit], rfl, ?_, by simpa using hstart⟩
  exact List.append_subset.2 ⟨List.subset_append_of_subset_left _ hl,
    List.subset_append_right _ _⟩

theorem Covers.sublist {handles : List Handle} (h : c.Covers handles ys start) :
    ys.Sublist start := by
  obtain ⟨l, rest, -, -, -, hstart⟩ := h
  exact (List.sublist_append_left _ _).trans hstart

/-- At the end nothing stands behind the cut. -/
theorem Covers.subset_of_end (h : c.Covers r.handles ys start) (hd : d.Tracks r)
    (hend : (c.next d).1 = none) : r.handles ⊆ ys := by
  obtain ⟨k, l, rest, -, -, hnext⟩ | ⟨-, hgone⟩ := next_cases hd c
  · rw [hnext] at hend
    cases hend
  · have hupcoming := h.upcoming_eq_none hgone
    obtain ⟨l, rest, hcut, hhead, hl, -⟩ := h
    rw [hcut, List.head?_eq_none_iff.1 (hhead.symm.trans hupcoming), List.append_nil]
    exact hl

/-! ## One move -/

theorem mem_issued (h : d.Tracks r) : r.handles ⊆ r.issued := fun k hk => (h.issued k).2 (.inl hk)

/-- A removal takes the node visited last out by its handle. -/
theorem Shared.act_remove_some (s : Shared α) (hlast : (s.cursors i).last = some k) :
    (s.act (.remove i)).1 = .removed ((s.deque.remove k).map (·.1)) ∧
      (s.act (.remove i)).2.deque = (s.deque.call (.remove k)).2 := by
  have hremove : (s.cursors i).remove s.deque =
      (s.deque.remove k, { s.cursors i with last := none }) := by
    rw [Cursor.remove, hlast]
    rfl
  simp only [Shared.act, Deque.call, hremove]
  cases s.deque.remove k <;> exact ⟨rfl, rfl⟩

theorem Shared.act_remove_none (s : Shared α) (hlast : (s.cursors i).last = none) :
    (s.act (.remove i)).1 = .removed none ∧ (s.act (.remove i)).2.deque = s.deque := by
  have hremove : (s.cursors i).remove s.deque = (none, { s.cursors i with last := none }) := by
    rw [Cursor.remove, hlast]
    rfl
  rw [Shared.act, hremove]
  exact ⟨rfl, rfl⟩

/-- A removal leaves the other cursors where they are. -/
theorem Shared.cursors_remove (s : Shared α) (i j : Nat) :
    (s.act (.remove i)).2.cursors j =
      if j = i then { s.cursors i with last := none } else s.cursors j := by
  simp only [Shared.act]
  split <;> rename_i hremove <;> cases congrArg Prod.snd hremove <;> rfl

/-- Every move keeps some of the handles and adds new ones at the ends. -/
theorem Shared.edit (h : s.deque.Tracks r) (m : Move α) : ∃ r' keep front back,
    (s.act m).2.deque.Tracks r' ∧ r.Edit r' keep front back ∧
      (m.adds = false → front = [] ∧ back = []) := by
  have hsame : ∀ m : Move α, (s.act m).2.deque = s.deque → ∃ r' keep front back,
      (s.act m).2.deque.Tracks r' ∧ r.Edit r' keep front back ∧
        (m.adds = false → front = [] ∧ back = []) := by
    intro m hm
    exact ⟨r, _, _, _, hm ▸ h, .refl r, fun _ => ⟨rfl, rfl⟩⟩
  cases m with
  | call c =>
      obtain ⟨r', hcall⟩ := h.call c
      obtain ⟨keep, front, back, hedit, hnone⟩ := hcall.step.edit h.nodup_handles
      exact ⟨r', keep, front, back, hcall.tracks, hedit, fun hc => hnone (hcall.step.handle? hc)⟩
  | next j => exact hsame _ rfl
  | remove j =>
      cases hlast : (s.cursors j).last with
      | none => exact hsame _ (s.act_remove_none hlast).2
      | some k =>
          obtain ⟨r', hcall⟩ := h.call (.remove k)
          obtain ⟨keep, front, back, hedit, hnone⟩ := hcall.step.edit h.nodup_handles
          refine ⟨r', keep, front, back, ?_, hedit, fun _ => hnone (hcall.step.handle? rfl)⟩
          rw [(s.act_remove_some hlast).2]
          exact hcall.tracks
  | reset j => exact hsame _ rfl
  | copy j j' => exact hsame _ rfl

/-! ## Between two resets -/

@[simp] theorem yielded_concat (i : Nat) (log : List (Move α × Answer α)) (entry) :
    yielded i (log ++ [entry]) = yielded i log ++ (yield? i entry).toList := by
  rw [yielded, List.filterMap_append, yielded]
  cases hentry : yield? i entry <;> simp [hentry]

@[simp] theorem latest_concat (i : Nat) (log : List (Move α × Answer α)) (entry) :
    latest i (log ++ [entry]) =
      if entry.1.isRemoval i then none else (yield? i entry).or (latest i log) := by
  rw [latest, List.foldl_append]
  rfl

theorem mem_yielded_of_latest {log : List (Move α × Answer α)} (h : latest i log = some k) :
    k ∈ yielded i log := by
  induction log using List.reverseRecOn with
  | nil => cases h
  | append_singleton log entry ih =>
      rw [latest_concat] at h
      rw [yielded_concat, List.mem_append, Option.mem_toList]
      split at h
      · cases h
      · exact (Option.or_eq_some_iff.1 h).elim .inr fun hlog => .inl (ih hlog.2)

/-- Where a cursor stands after what was done since it was reset. -/
structure Stands (s : Shared α) (i : Nat) (r : Roll α) (log : List (Move α × Answer α)) :
    Prop where
  tracks : s.deque.Tracks r
  keeps : (s.cursors i).Keeps r (yielded i log)
  last : (s.cursors i).last = latest i log
  ended : (.next i, .visited none) ∈ log → (s.cursors i).upcoming = none

variable {log : List (Move α × Answer α)}

/-- The cursor's own step forward. -/
theorem Stands.next (h : Stands s i r log) :
    Stands (s.act (.next i)).2 i r (log ++ [(.next i, (s.act (.next i)).1)]) := by
  have hhandles := mem_issued h.tracks
  have hcursor : (s.act (.next i)).2.cursors i = ((s.cursors i).next s.deque).2 := if_pos rfl
  have hyield : yield? i (Move.next i, (s.act (.next i)).1) =
      ((s.cursors i).next s.deque).1 := if_pos rfl
  obtain ⟨k, l, rest, hk, hsplit, hnext⟩ | ⟨hnext, hgone⟩ := next_cases h.tracks (s.cursors i)
  · rw [hnext] at hcursor hyield
    refine ⟨h.tracks, ?_, ?_, ?_⟩
    · rw [hcursor, yielded_concat, hyield]
      exact h.keeps.next hk hsplit hhandles h.tracks.nodup_handles
    · rw [hcursor, latest_concat, hyield]
      rfl
    · intro hmem
      obtain hmem | hmem := List.mem_append.1 hmem
      · rw [h.ended hmem] at hk
        cases hk
      · have heq := congrArg (yield? i) (List.mem_singleton.1 hmem)
        rw [hyield] at heq
        simp [yield?] at heq
  · rw [hnext] at hcursor hyield
    refine ⟨h.tracks, ?_, ?_, fun _ => by rw [hcursor]⟩
    · rw [hcursor, yielded_concat, hyield, Option.toList_none, List.append_nil]
      exact h.keeps.halt
    · rw [hcursor, latest_concat, hyield]
      exact h.last

theorem yield?_of_ne (hm : m ≠ .next i) (answer : Answer α) : yield? i (m, answer) = none := by
  cases m with
  | next j =>
      cases answer with
      | visited k => exact if_neg fun hij => hm (congrArg Move.next hij.symm)
      | _ => rfl
  | _ => rfl

/-- What others do leaves the cursor where it is, and its own removal forgets the last node. -/
theorem Shared.cursors_act (s : Shared α) (hm : m ≠ .next i) (hrestarts : m.restarts i = false) :
    (s.act m).2.cursors i =
      if m.isRemoval i then { s.cursors i with last := none } else s.cursors i := by
  cases m with
  | call c => rfl
  | next j => exact if_neg fun hij => hm (congrArg Move.next hij.symm)
  | remove j =>
      rw [s.cursors_remove]
      by_cases hij : i = j <;> simp [Move.isRemoval, hij]
  | reset j => exact if_neg (by simpa [Move.restarts] using hrestarts)
  | copy j j' => exact if_neg (by simpa [Move.restarts] using hrestarts)

theorem Shared.upcoming_act (s : Shared α) (hm : m ≠ .next i) (hrestarts : m.restarts i = false) :
    ((s.act m).2.cursors i).upcoming = (s.cursors i).upcoming := by
  rw [s.cursors_act hm hrestarts]
  split <;> rfl

/-- One move, whosever it is. -/
theorem Stands.step (h : Stands s i r log) (hrestarts : m.restarts i = false) :
    ∃ r', Stands (s.act m).2 i r' (log ++ [(m, (s.act m).1)]) := by
  by_cases hm : m = .next i
  · subst hm
    exact ⟨r, h.next⟩
  obtain ⟨r', keep, front, back, htracks, hedit, -⟩ := Shared.edit h.tracks m
  have hyield := yield?_of_ne hm (s.act m).1
  have hupcoming := s.upcoming_act hm hrestarts
  refine ⟨r', htracks, ?_, ?_, ?_⟩
  · rw [yielded_concat, hyield, Option.toList_none, List.append_nil]
    exact (h.keeps.edit hedit).congr hupcoming
  · rw [latest_concat, hyield, s.cursors_act hm hrestarts]
    split
    · rfl
    · exact h.last
  · intro hmem
    rw [hupcoming]
    obtain hmem | hmem := List.mem_append.1 hmem
    · exact h.ended hmem
    · exact absurd (congrArg Prod.fst (List.mem_singleton.1 hmem)).symm hm

theorem Shared.after_concat (s : Shared α) (moves : List (Move α)) (m : Move α) :
    s.after (moves ++ [m]) = ((s.after moves).act m).2 := by
  rw [after, List.foldl_append]
  rfl

theorem Shared.history_concat (s : Shared α) (moves : List (Move α)) (m : Move α) :
    s.history (moves ++ [m]) = s.history moves ++ [(m, ((s.after moves).act m).1)] := by
  induction moves generalizing s with
  | nil => rfl
  | cons first rest ih => exact congrArg (List.cons _) (ih (s.act first).2)

theorem Shared.undisturbed_concat (s : Shared α) (moves : List (Move α)) (m : Move α) :
    s.undisturbed i (moves ++ [m]) = (s.undisturbed i moves && (s.after moves).spares i m) := by
  induction moves generalizing s with
  | nil => exact Bool.and_comm _ _
  | cons first rest ih =>
      rw [List.cons_append, undisturbed, undisturbed, ih, Bool.and_assoc]
      rfl

/-- Whatever is done after a reset, the cut stays. -/
theorem Stands.run (h : Stands s i r []) (moves : List (Move α))
    (hmoves : ∀ m ∈ moves, m.restarts i = false) :
    ∃ r', Stands (s.after moves) i r' (s.history moves) := by
  induction moves using List.reverseRecOn with
  | nil => exact ⟨r, h⟩
  | append_singleton moves m ih =>
      obtain ⟨r', hstands⟩ := ih fun m' hm' => hmoves m' (List.mem_append_left _ hm')
      rw [s.after_concat, s.history_concat]
      exact hstands.step (hmoves m (by simp))

/-- The cursor's own removal does not take out what it visits next. -/
theorem Covers.mem_of_isRemoval (h : Stands s i r log)
    (hcovers : (s.cursors i).Covers r.handles (yielded i log) start) (hstart : start.Nodup)
    (hm : m.isRemoval i = true) (hk : (s.cursors i).upcoming = some k) :
    k ∈ (s.act m).2.deque.handles := by
  obtain ⟨l, rest, hcut, hupcoming, -, hsub⟩ := hcovers
  obtain ⟨tail, rfl⟩ := List.head?_eq_some_iff.1 (hupcoming.symm.trans hk)
  have hthere : k ∈ r.handles := by simp [hcut]
  have hnew : k ∉ yielded i log := fun hmem =>
    (List.nodup_append'.1 (hstart.sublist hsub)).2.2 hmem List.mem_cons_self
  obtain rfl : m = .remove i := by
    cases m with
    | remove j => exact congrArg _ (beq_iff_eq.1 hm).symm
    | _ => cases hm
  cases hlast : (s.cursors i).last with
  | none =>
      rw [(s.act_remove_none hlast).2, h.tracks.handles]
      exact hthere
  | some j =>
      have hne : k ≠ j := by
        rintro rfl
        exact hnew (mem_yielded_of_latest (h.last ▸ hlast))
      obtain ⟨r', hcall⟩ := h.tracks.call (.remove j)
      rw [(s.act_remove_some hlast).2, hcall.tracks.handles, Roll.handles, hcall.step.of_remove.2]
      obtain ⟨entry, hentry, rfl⟩ := List.mem_map.1 hthere
      refine List.mem_map_of_mem ((List.mem_eraseP_of_neg ?_).2 hentry)
      simpa using hne

/-- A move that brings no new node and spares the next one. -/
theorem Covers.step (h : Stands s i r log) (hstart : start.Nodup)
    (hcovers : (s.cursors i).Covers s.deque.handles (yielded i log) start)
    (hrestarts : m.restarts i = false) (hadds : m.adds = false) (hspares : s.spares i m = true) :
    ((s.act m).2.cursors i).Covers (s.act m).2.deque.handles
      (yielded i (log ++ [(m, (s.act m).1)])) start := by
  rw [h.tracks.handles] at hcovers
  have hnext := next_cases h.tracks (s.cursors i)
  by_cases hm : m = .next i
  · subst hm
    have hcursor : (s.act (.next i)).2.cursors i = ((s.cursors i).next s.deque).2 := if_pos rfl
    have hyield : yield? i (Move.next i, (s.act (.next i)).1) =
        ((s.cursors i).next s.deque).1 := if_pos rfl
    have hdeque : (s.act (.next i)).2.deque.handles = r.handles := h.tracks.handles
    rw [hcursor, hdeque, yielded_concat, hyield]
    obtain ⟨k, l, rest, hk, hsplit, heq⟩ | ⟨heq, hgone⟩ := hnext
    · rw [heq]
      exact hcovers.next hk hsplit h.tracks.nodup_handles
    · rw [heq, Option.toList_none, List.append_nil]
      exact hcovers.congr (hcovers.upcoming_eq_none hgone).symm
  · -- a change that adds nothing is a filter, which has to spare the next node
    obtain ⟨r', keep, front, back, htracks, hedit, hends⟩ := Shared.edit h.tracks m
    obtain ⟨rfl, rfl⟩ := hends hadds
    have hhandles : (s.act m).2.deque.handles = r.handles.filter keep := by
      rw [htracks.handles, hedit.handles, List.nil_append, List.append_nil]
    rw [yielded_concat, yield?_of_ne hm, Option.toList_none, List.append_nil, hhandles]
    refine (hcovers.filter fun k hk => ?_).congr (s.upcoming_act hm hrestarts)
    rw [← hhandles]
    obtain hremoval | hall := Bool.or_eq_true_iff.1 hspares
    · exact hcovers.mem_of_isRemoval h hstart hremoval hk
    · obtain ⟨k', l, rest, hk', hsplit, heq⟩ | ⟨heq, hgone⟩ := hnext
      · cases hk.symm.trans hk'
        rw [heq] at hall
        rw [htracks.handles]
        exact htracks.contains_iff.1 hall
      · exact absurd (hcovers.mem_of_upcoming hk) (hgone k hk)

/-- Whatever is done after a reset, as long as nothing new comes and the next node is spared. -/
theorem Covers.run (h : Stands s i r []) (hstart : start.Nodup)
    (hcovers : (s.cursors i).Covers s.deque.handles [] start) (moves : List (Move α))
    (hmoves : ∀ m ∈ moves, m.restarts i = false) (hadds : ∀ m ∈ moves, m.adds = false)
    (hspares : s.undisturbed i moves = true) :
    ((s.after moves).cursors i).Covers (s.after moves).deque.handles
      (yielded i (s.history moves)) start := by
  induction moves using List.reverseRecOn with
  | nil => exact hcovers
  | append_singleton moves m ih =>
      rw [s.undisturbed_concat, Bool.and_eq_true] at hspares
      have hbefore := fun m' hm' => hmoves m' (List.mem_append_left [m] hm')
      obtain ⟨r', hstands⟩ := h.run moves hbefore
      have hrest := ih hbefore (fun m' hm' => hadds m' (List.mem_append_left _ hm')) hspares.1
      rw [s.after_concat, s.history_concat]
      exact hrest.step hstands hstart (hmoves m (by simp)) (hadds m (by simp)) hspares.2

theorem Shared.tracks_after (moves : List (Move α)) :
    ∃ r, (Shared.start.after moves).deque.Tracks r := by
  induction moves using List.reverseRecOn with
  | nil => exact ⟨_, Deque.tracks_empty⟩
  | append_singleton moves m ih =>
      obtain ⟨r, htracks⟩ := ih
      obtain ⟨r', keep, front, back, htracks', -⟩ := Shared.edit htracks m
      rw [after_concat]
      exact ⟨r', htracks'⟩

/-- A cursor stands before the front after a reset. -/
theorem stands_reset (h : s.deque.Tracks r) (i : Nat) : Stands (s.act (.reset i)).2 i r [] := by
  have hcursor : (s.act (.reset i)).2.cursors i = atFront s.deque := if_pos rfl
  refine ⟨h, ?_, ?_, ?_⟩
  · rw [hcursor]
    exact keeps_atFront h
  · rw [hcursor]
    rfl
  · intro hmem
    cases hmem

theorem covers_reset (h : s.deque.Tracks r) (i : Nat) :
    ((s.act (.reset i)).2.cursors i).Covers s.deque.handles [] s.deque.handles := by
  have hcursor : (s.act (.reset i)).2.cursors i = atFront s.deque := if_pos rfl
  rw [hcursor]
  exact covers_atFront h

theorem Shared.act_next (s : Shared α) (i : Nat) :
    (s.act (.next i)).1 = .visited ((s.cursors i).next s.deque).1 := rfl

/-- What is known of where a cursor stands tells what it does. -/
theorem Stands.survey (hfirst : Stands s i r []) (hstart : s.deque.handles.Nodup)
    (hcovers : (s.cursors i).Covers s.deque.handles [] s.deque.handles) (moves : List (Move α))
    (hmoves : ∀ m ∈ moves, m.restarts i = false) : Survey i s moves := by
  obtain ⟨r', h⟩ := hfirst.run moves hmoves
  have hcovers := Covers.run hfirst hstart hcovers moves hmoves
  have hnext := next_cases h.tracks ((s.after moves).cursors i)
  refine ⟨?_, h.keeps.nodup, ?_, ?_, ?_, ?_, ?_⟩
  · intro k hk
    rw [Shared.act_next] at hk
    obtain ⟨k', l, rest, -, hsplit, heq⟩ | ⟨heq, -⟩ := hnext
    · rw [heq] at hk
      cases hk
      rw [h.tracks.contains_iff, hsplit]
      simp
    · rw [heq] at hk
      cases hk
  · obtain ⟨l, rest, hcut, hys, -⟩ := h.keeps.cut
    rw [h.tracks.contains_eq, h.tracks.handles]
    exact hys.trans (hcut ▸ List.sublist_append_left l rest)
  · intro k hk
    obtain ⟨r'', hcall⟩ := h.tracks.call (.remove k)
    obtain ⟨hanswer, hdeque⟩ := Shared.act_remove_some _ (h.last.trans hk)
    rw [hanswer, hdeque, h.tracks.remove_value, hcall.tracks.lists.entries,
      hcall.step.of_remove.2, h.tracks.lists.entries]
    exact ⟨rfl, rfl⟩
  · intro hk
    exact Shared.act_remove_none _ (h.last.trans hk)
  · intro hmem
    have hended := h.ended hmem
    rw [Shared.act_next]
    obtain ⟨k', l, rest, hk, -⟩ | ⟨heq, -⟩ := hnext
    · rw [hended] at hk
      cases hk
    · rw [heq]
  · intro hadds hspares
    have hcovers := hcovers hadds hspares
    rw [h.tracks.handles] at hcovers
    refine ⟨hcovers.sublist, fun hend k _ => ?_⟩
    rw [Shared.act_next] at hend
    by_cases hk : k ∈ r'.handles
    · exact .inl (hcovers.subset_of_end h.tracks (Answer.visited.inj hend) hk)
    · exact .inr (Bool.eq_false_iff.2 fun hcontains => hk (h.tracks.contains_iff.1 hcontains))

/-- Whatever is done with a deque and its cursors between two resets of one of them: that cursor
only yields nodes that are there, none twice, in their order; it takes out the node that it yielded
last and no other; its end is final. If nothing new comes and nobody else takes the next node away,
it misses none. -/
theorem cursor_survives_edits (before : List (Move α)) (i : Nat) (moves : List (Move α))
    (hmoves : ∀ m ∈ moves, m.restarts i = false) :
    Survey i ((Shared.start.after before).act (.reset i)).2 moves := by
  obtain ⟨r, htracks⟩ := Shared.tracks_after before
  exact (stands_reset htracks i).survey (htracks.handles ▸ htracks.nodup_handles)
    (covers_reset htracks i) moves hmoves

/-- A cursor takes out the first of three nodes and visits the second, after the last was popped
behind another cursor. -/
theorem survey_of_three :
    let s := ((Shared.start.after [.call (.push 'a'), .call (.push 'b'), .call (.push 'c')]).act
      (.reset 0)).2
    let moves : List (Move Char) :=
      [.next 0, .remove 0, .reset 1, .next 1, .call .pop, .next 0, .next 0]
    Survey 0 s moves ∧ s.undisturbed 0 moves = true ∧
      yielded 0 (s.history moves) = [⟨0, 0⟩, ⟨1, 0⟩] ∧ (s.after moves).deque.toList = ['b'] :=
  ⟨cursor_survives_edits _ 0 _ (by decide), by decide, by decide, by decide⟩

end Cursor

end PooledSql
