import Mathlib.Data.List.Rotate
import PooledSql.Collections.Cursor
import PooledSql.Proofs.Collections.Deque

/-!
# Going round a deque

A cursor that is reset whenever it has come to its end goes round the deque. `Deque.tour` is the
list of the entries in the order in which it comes to them: from the node that is next, or from the
front when there is none or it has gone.
-/

namespace PooledSql

variable {α : Type} {es l r : List (Handle × α)} {k : Handle} {v : α}

/-- A list of entries from a handle on, and then from the front up to it; as it is when there is
no such entry. -/
def turned (es : List (Handle × α)) : Option Handle → List (Handle × α)
  | none => es
  | some k => es.dropWhile (·.1 != k) ++ es.takeWhile (·.1 != k)

theorem turned_of_forall_ne (h : ∀ entry ∈ es, entry.1 ≠ k) : turned es (some k) = es := by
  have hne : ∀ entry ∈ es, (entry.1 != k) = true :=
    fun entry hentry => bne_iff_ne.2 (h entry hentry)
  rw [turned, List.takeWhile_eq_self_iff.2 hne, List.dropWhile_eq_nil_iff.2 hne, List.nil_append]

theorem forall_ne_of_nodup (hnodup : ((l ++ (k, v) :: r).map (·.1)).Nodup) :
    (∀ entry ∈ l, entry.1 ≠ k) ∧ ∀ entry ∈ r, entry.1 ≠ k := by
  rw [List.map_append, List.nodup_append'] at hnodup
  obtain ⟨-, hrest, hdisjoint⟩ := hnodup
  constructor
  · rintro entry hentry rfl
    exact hdisjoint (List.mem_map_of_mem hentry) List.mem_cons_self
  · rintro entry hentry rfl
    exact (List.nodup_cons.1 hrest).1 (List.mem_map.2 ⟨entry, hentry, rfl⟩)

theorem filter_ne_of_nodup (hnodup : ((l ++ (k, v) :: r).map (·.1)).Nodup) :
    (l ++ (k, v) :: r).filter (·.1 != k) = l ++ r := by
  obtain ⟨hl, hr⟩ := forall_ne_of_nodup hnodup
  rw [List.filter_append, List.filter_cons_of_neg (by simp)]
  rw [List.filter_eq_self.2 fun entry hentry => bne_iff_ne.2 (hl entry hentry),
    List.filter_eq_self.2 fun entry hentry => bne_iff_ne.2 (hr entry hentry)]

/-- From the first entry of a part on. -/
theorem turned_append (hnodup : ((l ++ r).map (·.1)).Nodup) :
    turned (l ++ r) (r.head?.map (·.1)) = r ++ l := by
  cases r with
  | nil => rw [List.append_nil]; rfl
  | cons entry rest =>
      obtain ⟨k, v⟩ := entry
      have hl : ∀ entry ∈ l, (entry.1 != k) = true := fun entry hentry =>
        bne_iff_ne.2 ((forall_ne_of_nodup hnodup).1 entry hentry)
      rw [List.head?_cons, Option.map_some, turned, List.dropWhile_append_of_pos hl,
        List.takeWhile_append_of_pos hl, List.dropWhile_cons_of_neg (by simp),
        List.takeWhile_cons_of_neg (by simp), List.append_nil]

theorem turned_isRotated (es : List (Handle × α)) (next : Option Handle) :
    turned es next ~r es := by
  cases next with
  | none => exact .refl es
  | some k =>
      calc turned es (some k)
          ~r es.takeWhile (·.1 != k) ++ es.dropWhile (·.1 != k) := List.isRotated_append
        _ = es := List.takeWhile_append_dropWhile

namespace Deque

variable {d : Deque α} {c : Cursor}

/-- The entries in the order in which a cursor comes to them on its way round. -/
def tour (d : Deque α) (c : Cursor) : List (Handle × α) := turned d.entries c.upcoming

theorem tour_isRotated (d : Deque α) (c : Cursor) : d.tour c ~r d.entries := turned_isRotated _ _

theorem Lists.nodup_fst (h : d.Lists es) : (es.map (·.1)).Nodup := by
  have hslots : ((es.map (·.1)).map Handle.index).Nodup := by
    rw [List.map_map]
    exact h.nodup
  exact hslots.of_map _

/-- The next node of the way round, and what comes behind it. -/
structure Visits (d : Deque α) (c : Cursor) (l : List (Handle × α)) (k : Handle) (v : α)
    (r : List (Handle × α)) : Prop where
  lists : d.Lists (l ++ (k, v) :: r)
  tour : d.tour c = (k, v) :: (r ++ l)
  /-- A cursor at its end is reset, and comes to the node then. -/
  next : c.next d = (some k, ⟨r.head?.map (·.1), some k⟩) ∨
    ∃ c', c.next d = (none, c') ∧ (c'.reset d).next d = (some k, ⟨r.head?.map (·.1), some k⟩)

theorem Lists.next_eq (h : d.Lists (l ++ (k, v) :: r)) (hc : c.upcoming = some k) :
    c.next d = (some k, ⟨r.head?.map (·.1), some k⟩) := by
  rw [Cursor.next, hc]
  simp only [h.nodeOf?, Option.map_map]
  cases r with
  | nil => rfl
  | cons entry r =>
      obtain ⟨k', v'⟩ := entry
      rw [List.append_cons] at h
      exact congrArg (fun next => (some k, (⟨some next, some k⟩ : Cursor))) h.handleAt

/-- A cursor that has not come to a node that is there starts from the front. -/
theorem Lists.next_reset (h : d.Lists ((k, v) :: r)) (c : Cursor) :
    (c.reset d).next d = (some k, ⟨r.head?.map (·.1), some k⟩) := by
  refine Lists.next_eq (l := []) h ?_
  rw [Cursor.reset, Cursor.atFront, headHandle?, h.head]
  change some (d.handleAt k.index) = some k
  rw [Lists.handleAt (l := []) h]

/-- There is a next node as long as there is any. -/
theorem Wf.exists_visits (h : d.Wf) (c : Cursor) (hlength : 0 < d.length) :
    ∃ l k v r, d.Visits c l k v r := by
  have hlists := h.lists
  have hend : ∀ c', c.next d = (none, c') → d.tour c = d.entries →
      ∃ l k v r, d.Visits c l k v r := by
    intro c' hnext htour
    rw [hlists.length] at hlength
    obtain ⟨⟨k, v⟩, r, hentries⟩ := List.exists_cons_of_length_pos hlength
    rw [hentries] at hlists htour
    refine ⟨[], k, v, r, hlists, ?_, .inr ⟨c', hnext, hlists.next_reset c'⟩⟩
    rw [htour, List.append_nil]
  obtain ⟨upcoming, last⟩ := c
  cases upcoming with
  | none => exact hend _ rfl rfl
  | some k =>
      cases hn : d.nodeOf? k with
      | none =>
          refine hend ⟨none, last⟩ (by simp only [Cursor.next, hn]) (turned_of_forall_ne ?_)
          rintro ⟨k', v⟩ hentry rfl
          obtain ⟨l, r, hentries⟩ := List.append_of_mem hentry
          rw [hentries] at hlists
          cases hn.symm.trans hlists.nodeOf?
      | some n =>
          obtain ⟨l, r, hentries⟩ := hlists.mem_of_nodeOf? hn
          rw [hentries] at hlists
          refine ⟨l, k, n.value, r, hlists, ?_, .inl (hlists.next_eq rfl)⟩
          rw [Deque.tour, hentries]
          exact turned_append (r := (k, n.value) :: r) hlists.nodup_fst

/-- Behind the node that was visited the way round ends with it. -/
theorem Visits.tour_next (h : d.Visits c l k v r) (last : Option Handle) :
    d.tour ⟨r.head?.map (·.1), last⟩ = r ++ l ++ [(k, v)] := by
  have hlists := h.lists
  rw [List.append_cons] at hlists
  rw [Deque.tour, hlists.entries, turned_append hlists.nodup_fst, List.append_assoc]

/-- Without the node that was visited the others come in the same order. -/
theorem Lists.tour_removed (h : d.Lists (l ++ r)) (last : Option Handle) :
    d.tour ⟨r.head?.map (·.1), last⟩ = r ++ l := by
  rw [Deque.tour, h.entries, turned_append h.nodup_fst]

end Deque

end PooledSql
