import PooledSql.Proofs.Pool.Conservation
import PooledSql.Proofs.Simulation.Change

/-!
# Tokens outside the pools

What a pool hands out is held by tasks and kept under labels until it comes back. Each token
outside is tagged with the pool that it belongs to. A move changes the tokens outside by what its
section takes and gives, by the resources that the factories make and take away, and by nothing
else.
-/

namespace PooledSql

/-- A token with the pool that it belongs to; connections are told by their numbers. -/
abbrev Tag := Nat × Token Nat

variable {ρ σ : Type}

def Token.map (f : ρ → σ) : Token ρ → Token σ
  | .resource x => .resource (x.1, f x.2)
  | .lease x => .lease (x.1, f x.2)
  | .creation => .creation
  | .validation => .validation
  | .destruction => .destruction

/-- An account of tokens as one of what is put in for them. -/
def Account.comap (f : ρ → σ) : Account σ → Account ρ
  | .resources q => .resources fun x => q (x.1, f x.2)
  | .leases n => .leases n
  | .creations => .creations
  | .validations => .validations
  | .destructions => .destructions

@[simp] theorem Account.covers_map (f : ρ → σ) (a : Account σ) (t : Token ρ) :
    a.covers (t.map f) = (a.comap f).covers t := by
  cases a <;> cases t <;> rfl

/-- Tokens of a pool. -/
def tag (index : Nat) (tokens : List (Token Connection)) : List Tag :=
  tokens.map fun t => (index, t.map (·.number))

/-- The tag is for a token of the pool that the account counts. -/
def Account.at (a : Account Nat) (index : Nat) (t : Tag) : Bool := t.1 == index && a.covers t.2

theorem countP_tag (a : Account Nat) (index : Nat) (tokens : List (Token Connection)) :
    (tag index tokens).countP (a.at index) = tokens.countP (a.comap (·.number)).covers := by
  rw [tag, List.countP_map]
  congr 1
  funext t
  simp [Account.at]

theorem countP_tag_of_ne {i j : Nat} (h : i ≠ j) (a : Account Nat)
    (tokens : List (Token Connection)) : (tag j tokens).countP (a.at i) = 0 := by
  rw [tag, List.countP_map, List.countP_eq_zero]
  intro t _
  simp [Account.at, Ne.symm h]

/-! ## Who holds what -/

/-- The tokens that a task of a pool holds in a phase. -/
def Phase.tokens (pool : Nat) : Phase → List Tag
  | .work lease _ _ | .giveBack lease _ | .discard lease _ | .letGo lease _ =>
    tag lease.pool [.lease lease.item]
  | .create | .creation _ _ => tag pool [.creation]
  | .validate x | .validation x _ _ => tag pool [.resource x.item, .validation]
  | .destroy x _ => tag pool [.resource x.item, .destruction]
  | .destruction _ _ _ _ => tag pool [.destruction]
  | _ => []

def Task.tokens (task : Task) : List Tag := task.phase.tokens task.pool

/-- A task that looks for its answer has no lease yet. -/
theorem Phase.Looks.tokens {phase : Phase} {job : Job} (h : phase.Looks job) (pool : Nat) :
    phase.tokens pool = [] := by
  cases h <;> rfl

/-- The tokens that tasks hold and that are kept under labels. -/
def Scene.outside (s : Scene) : List Tag :=
  s.tasks.gather Task.tokens ++ s.leases.flatMap fun entry => tag entry.2.pool [.lease entry.2.item]

/-- The tokens that come into being with an event. -/
def Event.sources : Event → List Tag
  | .created pool x => [(pool, .resource x)]
  | _ => []

/-- The tokens that are gone with an event. -/
def Event.sinks : Event → List Tag
  | .destroyBegun pool x | .lost pool x => [(pool, .resource x)]
  | .forsaken pool => [(pool, .destruction)]
  | _ => []

namespace Deed

def sources (d : Deed) : List Tag := d.events.flatMap Event.sources

def sinks (d : Deed) : List Tag := d.events.flatMap Event.sinks

/-- The tokens that the section takes into a pool. -/
def takes (s : Scene) (d : Deed) : List Tag :=
  match d.change with
  | some (index, x) => (s.pools[index]?.map fun p => tag index (x.takes p)).getD []
  | none => []

/-- The tokens that the section gives out of a pool. -/
def gives (s : Scene) (d : Deed) : List Tag :=
  match d.change with
  | some (index, x) => (s.pools[index]?.map fun p => tag index (x.gives p)).getD []
  | none => []

end Deed

namespace Scene

variable {s : Scene} {id : TaskId} {task : Task}

@[simp] theorem outside_put (s : Scene) (index : Nat) (pool : Pool Connection) :
    (s.put index pool).outside = s.outside := rfl

/-- What a task holds is outside. -/
theorem mem_outside (htask : s.tasks.get? id = some task) {t : Tag} (ht : t ∈ task.tokens) :
    t ∈ s.outside :=
  List.mem_append_left _ (Registry.mem_gather htask ht)

theorem countP_outside_insert (hkeys : s.tasks.keys.Nodup) (htask : s.tasks.get? id = some task)
    (task' : Task) (q : Tag → Bool) :
    ({ s with tasks := s.tasks.insert id task' } : Scene).outside.countP q + task.tokens.countP q =
      s.outside.countP q + task'.tokens.countP q := by
  have herase := Registry.countP_gather_erase Task.tokens q hkeys htask
  have hinsert := Registry.countP_gather_insert s.tasks id task' Task.tokens q
  simp only [outside, List.countP_append]
  omega

theorem countP_outside_go (hkeys : s.tasks.keys.Nodup) (htask : s.tasks.get? id = some task)
    (phase : Phase) (q : Tag → Bool) :
    (s.go id phase).outside.countP q + task.tokens.countP q =
      s.outside.countP q + (phase.tokens task.pool).countP q := by
  rw [go, htask]
  exact countP_outside_insert hkeys htask { task with phase } q

theorem countP_outside_remove (hkeys : s.tasks.keys.Nodup) (htask : s.tasks.get? id = some task)
    (q : Tag → Bool) :
    (s.remove id).outside.countP q + task.tokens.countP q = s.outside.countP q := by
  have herase := Registry.countP_gather_erase Task.tokens q hkeys htask
  simp only [remove, outside, List.countP_append]
  omega

theorem countP_outside_spawn (h : s.nextTask ∉ s.tasks.keys) (task : Task) (q : Tag → Bool) :
    (s.spawn task).outside.countP q = s.outside.countP q + task.tokens.countP q := by
  have hadd := Registry.countP_gather_add task Task.tokens q h
  simp only [spawn, outside, List.countP_append]
  omega

/-- A lease under a label is outside. -/
theorem mem_outside_of_lookup {label : String} {lease : Lease Connection}
    (h : s.leases.lookup label = some lease) :
    (lease.pool, .lease (lease.id, lease.resource.number)) ∈ s.outside := by
  obtain ⟨before, after, hleases, -⟩ := List.lookup_eq_some_iff.1 h
  refine List.mem_append_right _ (List.mem_flatMap.2 ⟨(label, lease), ?_, ?_⟩)
  · simp [hleases]
  · exact List.mem_singleton_self _

theorem countP_outside_take (hlabels : (s.leases.map (·.1)).Nodup) {label : String}
    {lease : Lease Connection} (hlease : s.leases.lookup label = some lease) (q : Tag → Bool) :
    ({ s with leases := s.leases.filter (·.1 != label) } : Scene).outside.countP q +
      (tag lease.pool [.lease lease.item]).countP q = s.outside.countP q := by
  have := Registry.countP_flatMap_filter
    (fun entry : String × Lease Connection => tag entry.2.pool [.lease entry.2.item]) q
    hlabels hlease
  simp only [outside, List.countP_append] at *
  omega

/-- A lease that is kept takes the place of the one that was kept under the label. -/
theorem countP_outside_keep (hlabels : (s.leases.map (·.1)).Nodup) (label : String)
    (lease : Lease Connection) (q : Tag → Bool) :
    ({ s with leases := (label, lease) :: s.leases.filter (·.1 != label) } :
        Scene).outside.countP q +
      (((s.leases.lookup label).map fun l => tag l.pool [.lease l.item]).getD []).countP q =
    s.outside.countP q + (tag lease.pool [.lease lease.item]).countP q := by
  simp only [outside, List.flatMap_cons, List.countP_append]
  cases hformer : s.leases.lookup label with
  | none =>
      have hfilter : s.leases.filter (·.1 != label) = s.leases := by
        rw [List.filter_eq_self]
        intro entry hentry
        have := List.lookup_eq_none_iff.1 hformer entry hentry
        rw [bne_iff_ne] at this ⊢
        exact this.symm
      rw [hfilter]
      simp only [Option.map_none, Option.getD_none, List.countP_nil]
      omega
  | some former =>
      have := Registry.countP_flatMap_filter
        (fun entry : String × Lease Connection => tag entry.2.pool [.lease entry.2.item]) q
        hlabels hformer
      simp only [Option.map_some, Option.getD_some] at *
      omega

end Scene

end PooledSql
