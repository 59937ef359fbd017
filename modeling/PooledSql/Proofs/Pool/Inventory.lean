import PooledSql.Proofs.Collections.Registry
import PooledSql.Proofs.Pool.Passes

/-!
# The inventory of a pool

`Pool.Sound` is what holds of a pool whenever no critical section is under way: the books agree
with the collections, no resource is in two of them, and there are never too many. Inside a
section a resource may be in hand, out of all collections; its number is then listed beside the
pool. Every move of a section is shown to keep `Sound`.
-/

namespace PooledSql

variable {ρ : Type}

/-- The count in a list is that in its parts; kept free of conditionals for arithmetic. -/
theorem countP_cons_eq_add {α : Type} (q : α → Bool) (a : α) (l : List α) :
    (a :: l).countP q = [a].countP q + l.countP q := by
  rw [← List.countP_append]
  rfl

/-- Lists of which each has at most one element that counts. -/
theorem countP_flatMap_eq {α β : Type} {f : α → List β} {q : β → Bool} {r : α → Bool} {l : List α}
    (h : ∀ a ∈ l, (f a).countP q = (r a).toNat) : (l.flatMap f).countP q = l.countP r := by
  induction l with
  | nil => rfl
  | cons a l ih =>
      rw [List.flatMap_cons, List.countP_append, List.countP_cons, h a List.mem_cons_self,
        ih fun b hb => h b (List.mem_cons_of_mem a hb), Nat.add_comm]
      cases r a <;> rfl

theorem countP_eq_pos_iff {n : Nat} {l : List Nat} : 0 < l.countP (· == n) ↔ n ∈ l := by
  rw [List.countP_pos_iff]
  simp

/-! ## What is where -/

/-- A resource with its number. -/
def Pooled.item (x : Pooled ρ) : Nat × ρ := (x.id, x.resource)

@[inherit_doc Pooled.item]
def Lease.item (l : Lease ρ) : Nat × ρ := (l.id, l.resource)

@[simp] theorem Pooled.item_settle (x : Pooled ρ) (now : Instant) :
    (x.settle now).item = x.item := rfl
@[simp] theorem Pooled.item_condemn (x : Pooled ρ) : x.condemn.item = x.item := rfl
@[simp] theorem Pooled.item_lease (x : Pooled ρ) (pool : Nat) : (x.lease pool).item = x.item := rfl
@[simp] theorem Lease.item_returned (l : Lease ρ) (loan : Loan) :
    (l.returned loan).item = l.item := rfl
@[simp] theorem Pooled.countP_item (x : Pooled ρ) (n : Nat) :
    [x.item].countP (·.1 == n) = [x.id].countP (· == n) := rfl

/-- The leases that an action carries. -/
def Action.leases : Action ρ → List (Lease ρ)
  | .deliver _ l => [l]
  | _ => []

/-- The value that was sent and not received. -/
def Deferred.unread {ε α : Type} (d : Deferred ε α) : List α :=
  match d.message with
  | some (.ok value) => [value]
  | _ => []

namespace Pool

variable {p p' p'' : Pool ρ} {now : Instant} {x : Pooled ρ} {rest : Deque (Pooled ρ)}
variable {hand : List Nat}

/-- The available resources. -/
def shelf (p : Pool ρ) : List (Nat × ρ) := p.available.toList.map Pooled.item

/-- The leases that travel in actions. -/
def delivering (p : Pool ρ) : List (Lease ρ) := p.outbox.flatMap Action.leases

/-- The leases that have reached their callers and were not received. -/
def unreceived (p : Pool ρ) : List (Lease ρ) := p.calls.gather Deferred.unread

/-- How often a number occurs in hand, on the shelf and among the loans. -/
def tally (hand : List Nat) (p : Pool ρ) (n : Nat) : Nat :=
  hand.countP (· == n) + p.shelf.countP (·.1 == n) + p.loans.keys.countP (· == n)

/-- What a pool is like between critical sections, and with the resources of these numbers in
hand inside one. -/
structure Sound (hand : List Nat) (p : Pool ρ) : Prop where
  shelf : p.available.Wf
  queue : p.waiting.Wf
  calls : p.calls.keys.Nodup
  /-- A request that is not settled has no message. -/
  unsent : ∀ {call d}, p.calls.get? call = some d → d.settling = .ready → d.message = none
  normal : p.config.IsNormal
  /-- No number is in two places. -/
  distinct : ∀ n, p.tally hand n ≤ 1
  numbered : ∀ n, 0 < p.tally hand n → n < p.nextResource
  books : p.allObjects = hand.length + p.available.length + p.loans.size + p.validating
  room : p.size ≤ p.config.max

theorem Sound.loans (h : p.Sound hand) : p.loans.keys.Nodup := by
  rw [List.nodup_iff_count_le_one]
  intro n
  have := h.distinct n
  simp only [tally] at this
  rw [List.count]
  omega

/-- A resource in hand is counted among all. -/
theorem Sound.allObjects_pos {n : Nat} (h : p.Sound (n :: hand)) :
    0 < p.allObjects := by
  have := h.books
  rw [List.length_cons] at this
  omega

theorem sound_idle (id : Nat) (config : PoolConfig) (policy : EvictionPolicy)
    (recycling : Option RecyclingConfig) : (idle id config policy recycling : Pool ρ).Sound [] where
  shelf := Deque.wf_empty
  queue := PriorityQueue.wf_ofSlots _
  calls := List.nodup_nil
  unsent hd _ := nomatch hd
  normal := config.isNormal_normalize
  distinct _ := Nat.zero_le 1
  numbered _ hn := absurd hn (lt_irrefl 0)
  books := rfl
  room := Nat.zero_le _

/-! ## Resources in hand -/

theorem countP_shelf_of_take {l r : List (Pooled ρ)} (hold : p.available.toList = l ++ x :: r)
    (hnew : rest.toList = l ++ r) (q : Nat × ρ → Bool) :
    p.shelf.countP q =
      ({ p with available := rest } : Pool ρ).shelf.countP q + [x.item].countP q := by
  simp only [Pool.shelf, hold, hnew, List.map_append, List.map_cons, List.countP_append]
  rw [countP_cons_eq_add]
  omega

/-- Some available resource is taken. -/
theorem Sound.take {l r : List (Pooled ρ)} (h : p.Sound hand) (hwf : rest.Wf)
    (hold : p.available.toList = l ++ x :: r) (hnew : rest.toList = l ++ r) :
    ({ p with available := rest } : Pool ρ).Sound (x.id :: hand) := by
  have htally : ∀ n, ({ p with available := rest } : Pool ρ).tally (x.id :: hand) n =
      p.tally hand n := by
    intro n
    have := countP_shelf_of_take hold hnew (·.1 == n)
    rw [Pooled.countP_item] at this
    simp only [tally, countP_cons_eq_add _ x.id hand]
    omega
  refine { h with shelf := hwf, distinct := ?_, numbered := ?_, books := ?_ }
  · exact fun n => htally n ▸ h.distinct n
  · exact fun n hn => h.numbered n (htally n ▸ hn)
  · have := h.books
    have := h.shelf.length_toList
    have := hwf.length_toList
    simp only [hold, hnew, List.length_append, List.length_cons] at *
    omega

theorem Sound.of_shift (h : p.Sound hand) (hs : p.available.shift = some (x, rest)) :
    ({ p with available := rest } : Pool ρ).Sound (x.id :: hand) := by
  obtain ⟨hwf, hlist⟩ := h.shelf.of_shift hs
  exact h.take (l := []) hwf hlist rfl

theorem shelve_available (hwf : p.available.Wf) (now : Instant) (x : Pooled ρ) :
    (p.shelve now x).available.Wf ∧
      (p.shelve now x).available.length = p.available.length + 1 ∧
      ∀ q, (p.shelve now x).shelf.countP q = p.shelf.countP q + [x.item].countP q := by
  have hpush := hwf.toList_push (x.settle now)
  have hunshift := hwf.toList_unshift (x.settle now)
  simp only [shelve, Pool.shelf]
  split
  · refine ⟨hwf.push _, ?_, fun q => ?_⟩
    · rw [(hwf.push _).length_toList, hwf.length_toList, hpush, List.length_append]
      rfl
    · rw [hpush, List.map_append, List.countP_append]
      rfl
  · refine ⟨hwf.unshift _, ?_, fun q => ?_⟩
    · rw [(hwf.unshift _).length_toList, hwf.length_toList, hunshift, List.length_cons]
    · rw [hunshift, List.map_cons, countP_cons_eq_add, Nat.add_comm]
      rfl

theorem Sound.shelve (h : p.Sound (x.id :: hand)) : (p.shelve now x).Sound hand := by
  obtain ⟨hwf, hlength, hcount⟩ := shelve_available h.shelf now x
  have htally : ∀ n, (p.shelve now x).tally hand n = p.tally (x.id :: hand) n := by
    intro n
    have := hcount (·.1 == n)
    have hloans : (p.shelve now x).loans = p.loans := rfl
    rw [Pooled.countP_item] at this
    simp only [tally, hloans, countP_cons_eq_add _ x.id hand]
    omega
  refine ⟨hwf, h.queue, h.calls, h.unsent, h.normal, ?_, ?_, ?_, h.room⟩
  · exact fun n => htally n ▸ h.distinct n
  · exact fun n hn => h.numbered n (htally n ▸ hn)
  · have := h.books
    simp only [List.length_cons] at this
    change p.allObjects = _ + _ + p.loans.size + p.validating
    omega

/-! ## Lending -/

/-- Callers leave the queue up to the first that is pending. -/
theorem of_takePending_some {isPending : CallId → Bool} {fuel : Nat}
    {queue waiting : PriorityQueue CallId} {call : CallId} (hwf : queue.Wf)
    (h : takePending isPending fuel queue = (some call, waiting)) :
    waiting.Wf ∧ isPending call = true ∧ ∃ stale, queue.toList = stale ++ call :: waiting.toList ∧
      ∀ c ∈ stale, isPending c = false := by
  induction fuel generalizing queue with
  | zero => cases h
  | succ fuel ih =>
      rw [takePending] at h
      split at h
      · cases h
      · rename_i first rest hdequeue
        obtain ⟨hrest, hlist⟩ := hwf.of_dequeue hdequeue
        split at h
        · rename_i hpending
          cases h
          exact ⟨hrest, hpending, [], hlist, by simp⟩
        · rename_i hpending
          obtain ⟨hwaiting, hcall, stale, hstale, hall⟩ := ih hrest h
          refine ⟨hwaiting, hcall, first :: stale, by rw [hlist, hstale]; rfl, ?_⟩
          exact List.forall_mem_cons.2 ⟨by simpa using hpending, hall⟩

/-- When nobody is found, nobody was pending and the queue is empty. -/
theorem of_takePending_none {isPending : CallId → Bool} {fuel : Nat}
    {queue waiting : PriorityQueue CallId} (hwf : queue.Wf) (hfuel : queue.toList.length ≤ fuel)
    (h : takePending isPending fuel queue = (none, waiting)) :
    waiting.Wf ∧ waiting.toList = [] ∧ ∀ c ∈ queue.toList, isPending c = false := by
  induction fuel generalizing queue with
  | zero =>
      cases h
      have hnil := List.eq_nil_of_length_eq_zero (Nat.le_zero.1 hfuel)
      exact ⟨hwf, hnil, by simp [hnil]⟩
  | succ fuel ih =>
      rw [takePending] at h
      split at h
      · rename_i hdequeue
        cases h
        have hnil := hwf.dequeue_eq_none hdequeue
        exact ⟨hwf, hnil, by simp [hnil]⟩
      · rename_i first rest hdequeue
        obtain ⟨hrest, hlist⟩ := hwf.of_dequeue hdequeue
        split at h
        · cases h
        · rename_i hpending
          rw [hlist, List.length_cons] at hfuel
          obtain ⟨hwaiting, hnil, hall⟩ := ih hrest (by omega) h
          refine ⟨hwaiting, hnil, ?_⟩
          rw [hlist]
          exact List.forall_mem_cons.2 ⟨by simpa using hpending, hall⟩

/-- A resource is lent to the first caller who is pending, or nobody is and it goes back. -/
theorem lend_cases (hwf : p.waiting.Wf) (now : Instant) (x : Pooled ρ) :
    (∃ call waiting, waiting.Wf ∧ p.isPending call = true ∧
      (∃ stale, p.waiting.toList = stale ++ call :: waiting.toList ∧
        ∀ c ∈ stale, p.isPending c = false) ∧
      p.lend now x = { p with
        waiting
        loans := p.loans.insert x.id x.loan
        metrics := { p.metrics with acquisitions := p.metrics.acquisitions + 1 }
        }.post [.deliver call (x.lease p.id)]) ∨
    ∃ waiting, waiting.Wf ∧ waiting.toList = [] ∧
      (∀ c ∈ p.waiting.toList, p.isPending c = false) ∧
      p.lend now x = ({ p with waiting } : Pool ρ).shelve now x := by
  rw [lend]
  split
  · rename_i call waiting htake
    obtain ⟨hwaiting, hcall, hstale⟩ := of_takePending_some hwf htake
    exact .inl ⟨call, waiting, hwaiting, hcall, hstale, rfl⟩
  · rename_i waiting htake
    obtain ⟨hwaiting, hnil, hall⟩ := of_takePending_none hwf hwf.length_toList.ge htake
    exact .inr ⟨waiting, hwaiting, hnil, hall, rfl⟩

theorem Sound.notMem_loans {n : Nat} (h : p.Sound (n :: hand)) : n ∉ p.loans.keys := by
  intro hmem
  have := h.distinct n
  have := countP_eq_pos_iff.2 hmem
  simp only [tally, countP_cons_eq_add _ n hand, List.countP_singleton, beq_self_eq_true,
    if_true] at *
  omega

theorem Sound.lend (h : p.Sound (x.id :: hand)) : (p.lend now x).Sound hand := by
  obtain ⟨call, waiting, hwaiting, -, -, heq⟩ | ⟨waiting, hwaiting, -, -, heq⟩ :=
    lend_cases h.queue now x <;> rw [heq]
  · have hnew := h.notMem_loans
    have htally : ∀ n, hand.countP (· == n) + p.shelf.countP (·.1 == n) +
        (p.loans.insert x.id x.loan).keys.countP (· == n) = p.tally (x.id :: hand) n := by
      intro n
      rw [Registry.keys_insert, Registry.erase_of_notMem hnew, tally,
        countP_cons_eq_add _ x.id hand, countP_cons_eq_add _ x.id p.loans.keys]
      omega
    refine ⟨h.shelf, hwaiting, h.calls, h.unsent, h.normal, ?_, ?_, ?_, h.room⟩
    · exact fun n => (htally n).trans_le (h.distinct n)
    · exact fun n hn => h.numbered n (htally n ▸ hn)
    · have := h.books
      have := Registry.size_insert x.loan hnew
      simp only [List.length_cons] at *
      change p.allObjects = hand.length + p.available.length +
        (p.loans.insert x.id x.loan).size + p.validating
      omega
  · exact Sound.shelve { h with queue := hwaiting }

theorem Sound.distinct_tail {n : Nat} (h : p.Sound (n :: hand)) (m : Nat) : p.tally hand m ≤ 1 := by
  have := h.distinct m
  simp only [tally, countP_cons_eq_add _ n hand] at *
  omega

theorem Sound.numbered_tail {n : Nat} (h : p.Sound (n :: hand)) (m : Nat)
    (hm : 0 < p.tally hand m) : m < p.nextResource := by
  refine h.numbered m ?_
  simp only [tally, countP_cons_eq_add _ n hand] at *
  omega

/-- A resource in hand is taken off the books of the resources that are there. -/
theorem Sound.writeOff {n : Nat} (h : p.Sound (n :: hand)) : p.writeOff.Sound hand := by
  refine { h with
    distinct := h.distinct_tail, numbered := h.numbered_tail, books := ?_, room := ?_ }
  · have := h.books
    simp only [List.length_cons] at this
    change p.allObjects - 1 = hand.length + p.available.length + p.loans.size + p.validating
    omega
  · have := h.room
    simp only [size, Pool.writeOff] at *
    omega

/-- What every move inside a section keeps. -/
theorem Sound.pass (h : p.Sound hand) (hpass : Pass now p p') : p'.Sound hand := by
  cases hpass with
  | order room need =>
      refine { h with room := ?_ }
      rw [size_orderCreation]
      exact room
  | test shift testing need =>
      have htaken := h.of_shift shift
      refine { htaken with
        distinct := htaken.distinct_tail, numbered := htaken.numbered_tail, books := ?_ }
      have := htaken.books
      simp only [List.length_cons] at this
      simp only [post]
      omega
  | lend shift testing => exact (h.of_shift shift).lend
  | cull wf before after => exact { (h.take wf before after).writeOff with }
  | note evictionCursor evictions => exact { h with }

theorem Sound.passes (h : p.Sound hand) (hpasses : Passes now p p') : p'.Sound hand :=
  hpasses.keep (fun hpass h => h.pass hpass) h

end Pool

end PooledSql
