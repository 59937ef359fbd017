import PooledSql.Collections.Deferred
import Mathlib.Data.List.Nodup

/-!
# Deferred results settle once

The two halves of a deferred result move in any order. `Deferred.Outcome` says what one move does,
`Deferred.Sound` what every move keeps, and `Deferred.Settlement` what follows for any run of moves:
only one of them settles the result, its argument is the only message that can be received, and
whatever was offered is refused, received, lost with the awaiting half, or still there.
-/

namespace PooledSql

namespace Deferred

variable {ε α : Type} {d d' : Deferred ε α} {move : Move ε α} {a : Answer ε α}
variable {m : Except ε α} {moves later : List (Move ε α)}

/-! ## Turns -/

/-- The message that a call offers. -/
def Move.message? : Move ε α → Option (Except ε α)
  | .resolve value => some (.ok value)
  | .reject error => some (.error error)
  | _ => none

/-- The message that was received. -/
def Answer.message? : Answer ε α → Option (Except ε α)
  | .receipt (.message m) => some m
  | _ => none

/-- What was offered is given back, or not heard. -/
def Answer.refuses : Answer ε α → Bool
  | .back _ => true
  | .rejected heard => !heard
  | _ => false

theorem Answer.message?_of_refuses (h : a.refuses = true) : a.message? = none := by
  cases a with
  | receipt r => cases h
  | _ => rfl

theorem Move.ne_of_message? {other : Move ε α} (h : move.message? = some m)
    (hother : other.message? = none) : move ≠ other := by
  rintro rfl
  cases h.symm.trans hother

/-- The awaiting half looks for the message before it is given up. -/
def looks : List (Move ε α) → Bool
  | [] => false
  | .tryReceive :: _ => true
  | .dropAwaiting :: _ => false
  | _ :: moves => looks moves

theorem looks_cons (h : move.message? = some m) : looks (move :: moves) = looks moves := by
  cases move with
  | resolve value => rfl
  | reject error => rfl
  | _ => cases h

/-- A move with its answer, and the deferred result before and after it. -/
structure Turn (ε α : Type) where
  before : Deferred ε α
  move : Move ε α
  answer : Answer ε α
  after : Deferred ε α

namespace Turn

/-- The status leaves `pending`. -/
def Settles (t : Turn ε α) : Prop := t.before.status = .pending ∧ t.after.status ≠ .pending

/-- The message that is offered, if the settling half is still there. -/
def offered (t : Turn ε α) : Option (Except ε α) :=
  if t.before.settling = .dropped then none else t.move.message?

/-- The message that is offered in vain. -/
def refused (t : Turn ε α) : Option (Except ε α) :=
  if t.answer.refuses then t.move.message? else none

def received (t : Turn ε α) : Option (Except ε α) := t.answer.message?

/-- The message that is given up with the awaiting half. -/
def lost (t : Turn ε α) : Option (Except ε α) :=
  match t.move with
  | .dropAwaiting => t.before.message
  | _ => none

theorem lost_of_message? {before after : Deferred ε α} (h : move.message? = some m) :
    (⟨before, move, a, after⟩ : Turn ε α).lost = none := by
  cases move with
  | dropAwaiting => cases h
  | _ => rfl

end Turn

/-- What happens when a move is made. -/
def turn (d : Deferred ε α) (move : Move ε α) : Turn ε α :=
  ⟨d, move, (d.play move).1, (d.play move).2⟩

/-- What happens in a run of moves. -/
def turns (d : Deferred ε α) : List (Move ε α) → List (Turn ε α)
  | [] => []
  | move :: moves => d.turn move :: turns (d.play move).2 moves

/-- The deferred result after a run of moves. -/
def after (d : Deferred ε α) (moves : List (Move ε α)) : Deferred ε α :=
  moves.foldl (fun d move => (d.play move).2) d

/-- The messages that are received in a run of moves. -/
def received (d : Deferred ε α) (moves : List (Move ε α)) : List (Except ε α) :=
  (d.turns moves).filterMap Turn.received

@[simp] theorem after_append (d : Deferred ε α) (moves later : List (Move ε α)) :
    d.after (moves ++ later) = (d.after moves).after later := List.foldl_append

theorem after_cons (d : Deferred ε α) (move : Move ε α) (moves : List (Move ε α)) :
    d.after (move :: moves) = (d.play move).2.after moves := rfl

theorem filterMap_cons_eq {β γ : Type} (f : β → Option γ) (b : β) (l : List β) :
    (b :: l).filterMap f = (f b).toList ++ l.filterMap f := by
  simp only [List.filterMap_eq_flatMap_toList, List.flatMap_cons]

theorem received_cons (d : Deferred ε α) (move : Move ε α) (moves : List (Move ε α)) :
    d.received (move :: moves) =
      (d.play move).1.message?.toList ++ (d.play move).2.received moves :=
  filterMap_cons_eq Turn.received _ _

theorem turns_append (d : Deferred ε α) (moves later : List (Move ε α)) :
    d.turns (moves ++ later) = d.turns moves ++ (d.after moves).turns later := by
  induction moves generalizing d with
  | nil => rfl
  | cons move moves ih => exact congrArg (List.cons _) (ih _)

theorem received_append (d : Deferred ε α) (moves later : List (Move ε α)) :
    d.received (moves ++ later) = d.received moves ++ (d.after moves).received later := by
  rw [received, turns_append, List.filterMap_append]
  rfl

/-! ## What a move does -/

/-- The status agrees with the halves, and only what was settled has a message. -/
structure Sound (d : Deferred ε α) : Prop where
  ready : d.settling = .ready → d.status = .pending
  used : d.settling = .used → d.status ≠ .pending
  unsent : d.status = .pending → d.message = none
  dropped : d.awaiting = .dropped → d.message = none

theorem sound_open : ({} : Deferred ε α).Sound where
  ready _ := rfl
  used h := by cases h
  unsent _ := rfl
  dropped h := by cases h

theorem Sound.ready_iff (h : d.Sound) (hheld : d.settling ≠ .dropped) :
    d.settling = .ready ↔ d.status = .pending := by
  refine ⟨h.ready, fun hp => ?_⟩
  cases hsettling : d.settling with
  | ready => rfl
  | used => exact absurd hp (h.used hsettling)
  | dropped => exact absurd hsettling hheld

theorem Sound.isPending_iff (h : d.Sound) :
    d.isPending = true ↔ d.settling = .ready ∧ d.awaiting = .open := by
  rw [isPending, Bool.and_eq_true, Bool.and_eq_true, beq_iff_eq, beq_iff_eq, beq_iff_eq, and_assoc]
  exact and_iff_right_of_imp fun hready => h.ready hready.1

/-- What a move does, what it is answered with, and what is there afterwards. -/
inductive Outcome (d : Deferred ε α) : Move ε α → Answer ε α → Deferred ε α → Prop where
  /-- The first message, and somebody awaits it. -/
  | sent {move : Move ε α} {a : Answer ε α} {m : Except ε α} {status : Status}
      (hready : d.settling = .ready) (hopen : d.awaiting = .open) (hmove : move.message? = some m)
      (hheard : a.refuses = false) (hquiet : a.message? = none) (hstatus : status ≠ .pending) :
      Outcome d move a { d with status, settling := .used, message := some m }
  /-- The first message, and nobody awaits it. -/
  | unheard {move : Move ε α} {a : Answer ε α} {m : Except ε α}
      (hready : d.settling = .ready) (hclosed : d.awaiting ≠ .open)
      (hmove : move.message? = some m) (hrefuses : a.refuses = true) :
      Outcome d move a { d with status := .rejected, settling := .used }
  /-- A message after the first one. -/
  | late {move : Move ε α} {a : Answer ε α} {m : Except ε α} (hused : d.settling = .used)
      (hmove : move.message? = some m) (hrefuses : a.refuses = true) : Outcome d move a d
  /-- There is no settling half that could make the call. -/
  | absent {move : Move ε α} {m : Except ε α} (hdropped : d.settling = .dropped)
      (hmove : move.message? = some m) : Outcome d move .gone d
  | received {m : Except ε α} (hmessage : d.message = some m) :
      Outcome d .tryReceive (.receipt (.message m)) { d with message := none }
  /-- There is no message, or nobody who could look for it. -/
  | missed {a : Answer ε α} (hmessage : d.message = none) (hheard : a.refuses = false)
      (hquiet : a.message? = none) : Outcome d .tryReceive a d
  | closed : Outcome d .close .closed d.close
  | awaitingDropped {held : Bool} : Outcome d .dropAwaiting (.dropped held) d.dropAwaiting
  | settlingDropped {held : Bool} : Outcome d .dropSettling (.dropped held) d.dropSettling

theorem play_resolve_gone (value : α) (h : d.settling = .dropped) :
    d.play (.resolve value) = (.gone, d) := by
  rw [play, if_pos h]

theorem play_resolve_used (value : α) (h : d.settling = .used) :
    d.play (.resolve value) = (.back value, d) := by
  simp only [play, resolve, h, reduceCtorEq, ne_eq, not_false_eq_true, if_true, if_false]

theorem play_resolve_closed (value : α) (h : d.settling = .ready) (hclosed : d.awaiting ≠ .open) :
    d.play (.resolve value) =
      (.back value, { d with status := .rejected, settling := .used }) := by
  simp only [play, resolve, h, reduceCtorEq, ne_eq, not_true_eq_false, if_false, hclosed]

theorem play_resolve_open (value : α) (h : d.settling = .ready) (hopen : d.awaiting = .open) :
    d.play (.resolve value) =
      (.taken,
        { d with status := .fulfilled, settling := .used, message := some (.ok value) }) := by
  simp only [play, resolve, h, reduceCtorEq, ne_eq, not_true_eq_false, if_false, hopen, if_true]

/-- A value is given back unless it can be sent. -/
theorem resolve_back_iff (value : α) (h : d.settling ≠ .dropped) :
    (d.play (.resolve value)).1 = .back value ↔ ¬(d.settling = .ready ∧ d.awaiting = .open) := by
  cases hsettling : d.settling with
  | ready =>
      by_cases hopen : d.awaiting = .open
      · rw [play_resolve_open value hsettling hopen]
        exact iff_of_false (by rintro ⟨⟩) (not_not_intro ⟨rfl, hopen⟩)
      · rw [play_resolve_closed value hsettling hopen]
        exact iff_of_true rfl fun h => hopen h.2
  | used =>
      rw [play_resolve_used value hsettling]
      exact iff_of_true rfl (by rintro ⟨⟨⟩, -⟩)
  | dropped => exact absurd hsettling h

/-- A call with a value, by what has become of the halves. -/
theorem outcome_resolve (d : Deferred ε α) (value : α) :
    Outcome d (.resolve value) (d.play (.resolve value)).1 (d.play (.resolve value)).2 := by
  cases hsettling : d.settling with
  | ready =>
      by_cases hopen : d.awaiting = .open
      · rw [play_resolve_open value hsettling hopen]
        exact .sent hsettling hopen rfl rfl rfl (by rintro ⟨⟩)
      · rw [play_resolve_closed value hsettling hopen]
        exact .unheard hsettling hopen rfl rfl
  | used =>
      rw [play_resolve_used value hsettling]
      exact .late hsettling rfl rfl
  | dropped =>
      rw [play_resolve_gone value hsettling]
      exact .absent hsettling rfl

theorem outcome_reject (d : Deferred ε α) (error : ε) :
    Outcome d (.reject error) (d.play (.reject error)).1 (d.play (.reject error)).2 := by
  rw [play, reject]
  cases hsettling : d.settling with
  | ready =>
      by_cases hopen : d.awaiting = .open
      · simp only [reduceCtorEq, ne_eq, not_true_eq_false, if_false, if_pos hopen]
        exact .sent hsettling hopen rfl rfl rfl (by rintro ⟨⟩)
      · simp only [reduceCtorEq, ne_eq, not_true_eq_false, if_false, if_neg hopen]
        exact .unheard hsettling hopen rfl rfl
  | used => exact .late hsettling rfl rfl
  | dropped => exact .absent hsettling rfl

theorem outcome_tryReceive (h : d.Sound) :
    Outcome d .tryReceive (d.play .tryReceive).1 (d.play .tryReceive).2 := by
  rw [play]
  split
  · next hdropped => exact .missed (h.dropped hdropped) rfl rfl
  · rw [tryReceive]
    cases hmessage : d.message with
    | none =>
        refine .missed hmessage rfl ?_
        dsimp only
        split <;> rfl
    | some m => exact .received hmessage

/-- Every move has one of the outcomes. -/
theorem Sound.outcome (h : d.Sound) (move : Move ε α) :
    Outcome d move (d.play move).1 (d.play move).2 := by
  cases move with
  | resolve value => exact outcome_resolve d value
  | reject error => exact outcome_reject d error
  | tryReceive => exact outcome_tryReceive h
  | close => exact .closed
  | dropAwaiting => exact .awaitingDropped
  | dropSettling => exact .settlingDropped

@[simp] theorem status_close (d : Deferred ε α) : d.close.status = d.status := by
  rw [close]
  split <;> rfl

@[simp] theorem settling_close (d : Deferred ε α) : d.close.settling = d.settling := by
  rw [close]
  split <;> rfl

@[simp] theorem message_close (d : Deferred ε α) : d.close.message = d.message := by
  rw [close]
  split <;> rfl

theorem awaiting_close_ne (d : Deferred ε α) : d.close.awaiting ≠ .open := by
  rw [close]
  split
  · rintro ⟨⟩
  · assumption

theorem awaiting_of_close (h : d.close.awaiting = .dropped) : d.awaiting = .dropped := by
  rw [close] at h
  split at h
  · cases h
  · exact h

namespace Outcome

/-- What every move keeps. -/
theorem sound (h : Outcome d move a d') (hd : d.Sound) : d'.Sound := by
  cases h with
  | sent hready hopen _ _ _ hstatus =>
      exact ⟨by rintro ⟨⟩, fun _ => hstatus, fun h => absurd h hstatus,
        fun h => by cases hopen.symm.trans h⟩
  | unheard _ _ _ _ => exact ⟨by rintro ⟨⟩, by rintro _ ⟨⟩, by rintro ⟨⟩, hd.dropped⟩
  | received _ => exact ⟨hd.ready, hd.used, fun _ => rfl, fun _ => rfl⟩
  | closed =>
      refine ⟨?_, ?_, ?_, fun h => ?_⟩
      · simpa only [settling_close, status_close] using hd.ready
      · simpa only [settling_close, status_close] using hd.used
      · simpa only [status_close, message_close] using hd.unsent
      · rw [message_close]
        exact hd.dropped (awaiting_of_close h)
  | awaitingDropped => exact ⟨hd.ready, hd.used, fun _ => rfl, fun _ => rfl⟩
  | settlingDropped => exact ⟨by rintro ⟨⟩, by rintro ⟨⟩, hd.unsent, hd.dropped⟩
  | _ => exact hd

/-- The status of what was settled does not change. -/
theorem status_eq (h : Outcome d move a d') (hd : d.Sound) (hs : d.status ≠ .pending) :
    d'.status = d.status := by
  cases h with
  | sent hready _ _ _ _ _ => exact absurd (hd.ready hready) hs
  | unheard hready _ _ _ => exact absurd (hd.ready hready) hs
  | closed => exact status_close d
  | _ => rfl

/-- The settling half is gone once it has been dropped. -/
theorem settling_iff (h : Outcome d move a d') :
    d'.settling = .dropped ↔ d.settling = .dropped ∨ move = .dropSettling := by
  cases h with
  | sent hready _ hmove _ _ _ | unheard hready _ hmove _ =>
      refine iff_of_false (by rintro ⟨⟩) ?_
      rintro (hdropped | heq)
      · cases hready.symm.trans hdropped
      · exact Move.ne_of_message? hmove rfl heq
  | late _ hmove _ | absent _ hmove => exact (or_iff_left (Move.ne_of_message? hmove rfl)).symm
  | closed =>
      rw [settling_close]
      exact (or_iff_left (by rintro ⟨⟩)).symm
  | settlingDropped => exact iff_of_true rfl (.inr rfl)
  | _ => exact (or_iff_left (by rintro ⟨⟩)).symm

/-- The awaiting half is open until it is closed or dropped. -/
theorem awaiting_iff (h : Outcome d move a d') :
    d'.awaiting = .open ↔ d.awaiting = .open ∧ move ≠ .close ∧ move ≠ .dropAwaiting := by
  cases h with
  | sent _ _ hmove _ _ _ | unheard _ _ hmove _ | late _ hmove _ | absent _ hmove =>
      exact (and_iff_left ⟨Move.ne_of_message? hmove rfl, Move.ne_of_message? hmove rfl⟩).symm
  | closed => exact iff_of_false (awaiting_close_ne d) fun h => h.2.1 rfl
  | awaitingDropped => exact iff_of_false (by rintro ⟨⟩) fun h => h.2.2 rfl
  | _ => exact (and_iff_left ⟨by rintro ⟨⟩, by rintro ⟨⟩⟩).symm

/-- What is received from a settled result is the message that is there. -/
theorem receives (h : Outcome d move a d') (hd : d.Sound) (hs : d.status ≠ .pending) :
    a.message?.toList ++ (if looks moves then d'.message.toList else []) =
      if looks (move :: moves) then d.message.toList else [] := by
  cases h with
  | sent hready _ _ _ _ _ | unheard hready _ _ _ => exact absurd (hd.ready hready) hs
  | late _ hmove hrefuses =>
      rw [Answer.message?_of_refuses hrefuses, looks_cons hmove]
      rfl
  | absent _ hmove =>
      rw [looks_cons hmove]
      rfl
  | received hmessage =>
      rw [hmessage]
      exact congrArg (List.cons _) (ite_self [])
  | missed hmessage _ hquiet =>
      rw [hmessage, hquiet]
      exact ite_self []
  | closed =>
      rw [message_close]
      rfl
  | awaitingDropped => exact ite_self _
  | settlingDropped => rfl

/-- A move that settles the result offers its message, which is sent if it is not refused. -/
theorem settles (h : Outcome d move a d') (hd : d.Sound) (hp : d.status = .pending)
    (hs : d'.status ≠ .pending) : a.message? = none ∧ ∃ m, move.message? = some m ∧
      d'.message = if a.refuses then none else some m := by
  cases h with
  | sent _ _ hmove hheard hquiet _ =>
      exact ⟨hquiet, _, hmove, by rw [hheard, if_neg Bool.false_ne_true]⟩
  | unheard _ _ hmove hrefuses =>
      refine ⟨Answer.message?_of_refuses hrefuses, _, hmove, ?_⟩
      rw [hrefuses, if_pos rfl]
      exact hd.unsent hp
  | closed => exact absurd ((status_close d).trans hp) hs
  | _ => exact absurd hp hs

/-- Nothing is received from a result that is pending. -/
theorem message?_eq_none (h : Outcome d move a d') (hd : d.Sound) (hp : d.status = .pending) :
    a.message? = none := by
  cases h with
  | sent _ _ _ _ hquiet _ | missed _ _ hquiet => exact hquiet
  | unheard _ _ _ hrefuses | late _ _ hrefuses => exact Answer.message?_of_refuses hrefuses
  | received hmessage => cases hmessage.symm.trans (hd.unsent hp)
  | _ => rfl

end Outcome

/-- What was there or is offered is still there, received, lost or refused. -/
theorem Turn.balance {t : Turn ε α} (h : Outcome t.before t.move t.answer t.after)
    (hd : t.before.Sound) : t.before.message.toList ++ t.offered.toList =
      t.after.message.toList ++ t.received.toList ++ t.lost.toList ++ t.refused.toList := by
  obtain ⟨d, move, a, d'⟩ := t
  dsimp only at h hd
  cases h with
  | sent hready _ hmove hheard hquiet _ =>
      have hunsent : d.message = none := hd.unsent (hd.ready hready)
      simp [offered, refused, received, lost_of_message? hmove, hready, hmove, hheard, hquiet,
        hunsent]
  | unheard hready _ hmove hrefuses =>
      have hquiet := Answer.message?_of_refuses hrefuses
      simp [offered, refused, received, lost_of_message? hmove, hready, hmove, hrefuses, hquiet]
  | late hused hmove hrefuses =>
      have hquiet := Answer.message?_of_refuses hrefuses
      simp [offered, refused, received, lost_of_message? hmove, hused, hmove, hrefuses, hquiet]
  | absent hdropped hmove =>
      simp [offered, refused, received, lost_of_message? hmove, hdropped, Answer.refuses,
        Answer.message?]
  | received hmessage =>
      simp [offered, refused, received, lost, hmessage, Move.message?, Answer.refuses,
        Answer.message?]
  | missed hmessage hheard hquiet =>
      simp [offered, refused, received, lost, hmessage, hheard, hquiet, Move.message?]
  | closed =>
      simp [offered, refused, received, lost, Move.message?, Answer.refuses, Answer.message?]
  | awaitingDropped =>
      simp [offered, refused, received, lost, dropAwaiting, Move.message?, Answer.refuses,
        Answer.message?]
  | settlingDropped =>
      simp [offered, refused, received, lost, dropSettling, Move.message?, Answer.refuses,
        Answer.message?]

/-! ## Runs of moves -/

theorem Sound.after (h : d.Sound) (moves : List (Move ε α)) : (d.after moves).Sound := by
  induction moves generalizing d with
  | nil => exact h
  | cons move moves ih => exact ih ((h.outcome move).sound h)

/-- What was settled stays as it was settled. -/
theorem Sound.status_after (h : d.Sound) (hs : d.status ≠ .pending) (moves : List (Move ε α)) :
    (d.after moves).status = d.status := by
  induction moves generalizing d with
  | nil => rfl
  | cons move moves ih =>
      have hstatus := (h.outcome move).status_eq h hs
      exact (ih ((h.outcome move).sound h) (hstatus ▸ hs)).trans hstatus

/-- It is not settled a second time. -/
theorem Sound.not_settles (h : d.Sound) (hs : d.status ≠ .pending) :
    ∀ t ∈ d.turns moves, ¬t.Settles := by
  induction moves generalizing d with
  | nil => exact fun t ht => absurd ht List.not_mem_nil
  | cons move moves ih =>
      have hstatus := (h.outcome move).status_eq h hs
      exact List.forall_mem_cons.mpr
        ⟨fun hsettles => hs hsettles.1, ih ((h.outcome move).sound h) (hstatus ▸ hs)⟩

theorem Sound.pairwise_turns (h : d.Sound) (moves : List (Move ε α)) :
    (d.turns moves).Pairwise fun t t' => ¬(t.Settles ∧ t'.Settles) := by
  induction moves generalizing d with
  | nil => exact .nil
  | cons move moves ih =>
      have hsound := (h.outcome move).sound h
      refine .cons (fun t ht hboth => ?_) (ih hsound)
      exact hsound.not_settles hboth.1.2 t ht hboth.2

/-- It is pending as long as no move has settled it. -/
theorem Sound.pending_iff (h : d.Sound) (hp : d.status = .pending) (moves : List (Move ε α)) :
    (d.after moves).status = .pending ↔ ¬∃ t ∈ d.turns moves, t.Settles := by
  induction moves generalizing d with
  | nil => exact iff_of_true hp (by rintro ⟨t, ht, -⟩; cases ht)
  | cons move moves ih =>
      have hsound := (h.outcome move).sound h
      by_cases hs : (d.play move).2.status = .pending
      · have hhead : ¬(d.turn move).Settles := fun hsettles => hsettles.2 hs
        rw [turns, List.exists_mem_cons_iff, or_iff_right hhead]
        exact ih hsound hs
      · refine iff_of_false ?_ (not_not_intro ⟨_, List.mem_cons_self, hp, hs⟩)
        exact (hsound.status_after hs moves).symm ▸ hs

theorem Sound.received_of_settled (h : d.Sound) (hs : d.status ≠ .pending)
    (moves : List (Move ε α)) :
    d.received moves = if looks moves then d.message.toList else [] := by
  induction moves generalizing d with
  | nil => rfl
  | cons move moves ih =>
      have hout := h.outcome move
      rw [received_cons, ih (hout.sound h) ((hout.status_eq h hs).symm ▸ hs)]
      exact hout.receives h hs

/-- Nothing is received, or the message of the move that settled the result, once. -/
theorem Sound.received_of_pending (h : d.Sound) (hp : d.status = .pending)
    (moves : List (Move ε α)) :
    d.received moves = [] ∨ ∃ t ∈ d.turns moves, t.Settles ∧ t.refused = none ∧
      ∃ m, t.move.message? = some m ∧ d.received moves = [m] := by
  induction moves generalizing d with
  | nil => exact .inl rfl
  | cons move moves ih =>
      have hout := h.outcome move
      have hsound := hout.sound h
      by_cases hs : (d.play move).2.status = .pending
      -- The first move has not settled the result, and another one may.
      · rw [received_cons, hout.message?_eq_none h hp, Option.toList_none, List.nil_append]
        refine (ih hsound hs).imp_right ?_
        rintro ⟨t, ht, hsettled⟩
        exact ⟨t, .tail _ ht, hsettled⟩
      · obtain ⟨hquiet, m, hmove, hmessage⟩ := hout.settles h hp hs
        rw [received_cons, hquiet, Option.toList_none, List.nil_append,
          hsound.received_of_settled hs, hmessage]
        cases hrefuses : (d.play move).1.refuses with
        | true => exact .inl (ite_self [])
        | false =>
            cases looks moves with
            | false => exact .inl rfl
            | true =>
                have hrefused : (d.turn move).refused = none := by
                  rw [Turn.refused, turn, hrefuses, if_neg Bool.false_ne_true]
                exact .inr ⟨_, .head _, ⟨hp, hs⟩, hrefused, m, hmove, rfl⟩

/-- Whatever was there or is offered in a run is there at the end, or was received, lost or
refused. -/
theorem Sound.balance (h : d.Sound) (moves : List (Move ε α)) :
    (d.message.toList ++ (d.turns moves).filterMap Turn.offered).Perm
      ((d.after moves).message.toList ++ d.received moves ++
        (d.turns moves).filterMap Turn.lost ++ (d.turns moves).filterMap Turn.refused) := by
  classical
  -- The messages of later moves come between those of the first one, so they are counted.
  induction moves generalizing d with
  | nil =>
      rw [List.append_assoc, List.append_assoc]
      exact .refl _
  | cons move moves ih =>
      have hout := h.outcome move
      refine List.perm_iff_count.mpr fun m => ?_
      have hturn := congrArg (List.count m) (Turn.balance (t := d.turn move) hout h)
      have hrest := (ih (hout.sound h)).count_eq m
      change List.count m (d.message.toList ++ _) =
        List.count m ((d.play move).2.message.toList ++ _ ++ _ ++ _) at hturn
      rw [after_cons]
      simp only [turns, received, filterMap_cons_eq, List.count_append] at hturn hrest ⊢
      omega

theorem Sound.settling_after (h : d.Sound) (moves : List (Move ε α)) :
    (d.after moves).settling = .dropped ↔ d.settling = .dropped ∨ .dropSettling ∈ moves := by
  induction moves generalizing d with
  | nil => exact (or_iff_left List.not_mem_nil).symm
  | cons move moves ih =>
      have hout := h.outcome move
      rw [List.mem_cons, ← or_assoc, eq_comm (b := move), ← hout.settling_iff]
      exact ih (hout.sound h)

theorem Sound.awaiting_after (h : d.Sound) (moves : List (Move ε α)) :
    (d.after moves).awaiting = .open ↔
      d.awaiting = .open ∧ .close ∉ moves ∧ .dropAwaiting ∉ moves := by
  induction moves generalizing d with
  | nil => exact (and_iff_left ⟨List.not_mem_nil, List.not_mem_nil⟩).symm
  | cons move moves ih =>
      have hout := h.outcome move
      refine (ih (hout.sound h)).trans ?_
      rw [hout.awaiting_iff, List.mem_cons, List.mem_cons]
      tauto

/-! ## A deferred result and its history -/

/-- A move of the run settled the result. -/
def SettledIn (moves : List (Move ε α)) : Prop := ∃ t ∈ turns {} moves, t.Settles

/-- The awaiting half was neither closed nor dropped in the run. -/
def AwaitedIn (moves : List (Move ε α)) : Prop := .close ∉ moves ∧ .dropAwaiting ∉ moves

theorem settling_ne_dropped (h : .dropSettling ∉ moves) :
    (after ({} : Deferred ε α) moves).settling ≠ .dropped := by
  rw [Ne, sound_open.settling_after]
  rintro (hdropped | hmem)
  · cases hdropped
  · exact h hmem

theorem awaiting_eq_open_iff :
    (after ({} : Deferred ε α) moves).awaiting = .open ↔ AwaitedIn moves :=
  (sound_open.awaiting_after moves).trans (and_iff_right rfl)

theorem settling_eq_ready_iff (h : .dropSettling ∉ moves) :
    (after ({} : Deferred ε α) moves).settling = .ready ↔ ¬SettledIn moves :=
  ((sound_open.after moves).ready_iff (settling_ne_dropped h)).trans
    (sound_open.pending_iff rfl moves)

theorem received_eq_nil (h : ¬SettledIn moves) : received ({} : Deferred ε α) moves = [] := by
  refine (sound_open.received_of_pending rfl moves).resolve_right ?_
  rintro ⟨t, ht, hsettles, -⟩
  exact h ⟨t, ht, hsettles⟩

/-- What a run of moves makes of a deferred result. -/
structure Settlement (moves : List (Move ε α)) : Prop where
  pending_iff : (after {} moves).status = .pending ↔ ¬SettledIn moves
  /-- At most one move settles the result. -/
  once : (turns {} moves).Pairwise fun t t' => ¬(t.Settles ∧ t'.Settles)
  /-- The status does not change after that. -/
  final : SettledIn moves →
    ∀ later, (after {} (moves ++ later)).status = (after {} moves).status
  /-- At most one message is received. It is the argument of the move that settled the result, and
  was not refused. -/
  received : received {} moves = [] ∨ ∃ t ∈ turns {} moves, t.Settles ∧ t.refused = none ∧
    ∃ m, t.move.message? = some m ∧ received {} moves = [m]
  back_iff : .dropSettling ∉ moves → ∀ value,
    ((after {} moves).play (.resolve value)).1 = .back value ↔ SettledIn moves ∨ ¬AwaitedIn moves
  /-- A value that is not given back is in the channel. It is received once if the awaiting half
  looks for it before that half is dropped, whatever else is done. -/
  taken : .dropSettling ∉ moves → ¬SettledIn moves → AwaitedIn moves → ∀ value,
    ((after {} moves).play (.resolve value)).1 = .taken ∧
      (after {} (moves ++ [.resolve value])).message = some (.ok value) ∧
      ∀ later, Deferred.received {} (moves ++ .resolve value :: later) =
        if looks later then [.ok value] else []
  /-- Every message that was offered is in the channel, was received, was lost with the awaiting
  half, or was refused. -/
  conserved : ((turns {} moves).filterMap Turn.offered).Perm
    ((after {} moves).message.toList ++ Deferred.received {} moves ++
      (turns {} moves).filterMap Turn.lost ++ (turns {} moves).filterMap Turn.refused)
  /-- What is offered once is not both received and refused. -/
  apart : ((turns {} moves).filterMap Turn.offered).Nodup →
    (Deferred.received {} moves).Disjoint ((turns {} moves).filterMap Turn.refused)
  isPending_iff : .dropSettling ∉ moves →
    ((after {} moves).isPending = true ↔ ¬SettledIn moves ∧ AwaitedIn moves)

/-- A deferred result is settled once, and what is offered to it is neither lost nor doubled. -/
theorem settles_once (moves : List (Move ε α)) : Settlement moves where
  pending_iff := sound_open.pending_iff rfl moves
  once := sound_open.pairwise_turns moves
  final hsettled later := by
    rw [after_append]
    refine (sound_open.after moves).status_after (fun hp => ?_) later
    exact (sound_open.pending_iff rfl moves).mp hp hsettled
  received := sound_open.received_of_pending rfl moves
  back_iff hheld value := by
    rw [resolve_back_iff value (settling_ne_dropped hheld), settling_eq_ready_iff hheld,
      awaiting_eq_open_iff, not_and_or, not_not]
  taken hheld hsettled hawaited value := by
    have hready := (settling_eq_ready_iff hheld).mpr hsettled
    have hplay := play_resolve_open value hready (awaiting_eq_open_iff.mpr hawaited)
    have hsound := (((sound_open.after moves).outcome (.resolve value)).sound (sound_open.after _))
    rw [hplay] at hsound
    refine ⟨by rw [hplay], ?_, fun later => ?_⟩
    · rw [after_append, after_cons, hplay]
      rfl
    · rw [received_append, received_eq_nil hsettled, received_cons, hplay]
      exact hsound.received_of_settled (by rintro ⟨⟩) later
  conserved := sound_open.balance moves
  apart hnodup := by
    have hdisjoint := List.disjoint_of_nodup_append ((sound_open.balance moves).nodup hnodup)
    intro m hreceived
    exact hdisjoint (List.mem_append_left _ (List.mem_append_right _ hreceived))
  isPending_iff hheld := by
    rw [(sound_open.after moves).isPending_iff, settling_eq_ready_iff hheld, awaiting_eq_open_iff]

/-- What was sent before the awaiting half was closed is received after that, once. -/
example : received ({} : Deferred String Nat)
    [.resolve 7, .close, .resolve 8, .tryReceive, .tryReceive] = [.ok 7] := rfl

end Deferred

end PooledSql
