import MoEcat.Runs

/-!
# Channels that can be closed

A channel carries items from any number of senders to one receiver, in the order in
which they are sent. It can be closed, after which nothing more is sent, and the
receiver finishes when the channel is closed and nothing is left in it.

On every path of a channel the items received are the first ones sent; a closed
channel keeps what has been sent; and a receiver that has finished has received all
of it.
-/

namespace MoEcat.Channels

variable {ρ : Type}

/-- What has gone through a channel so far, and how far its two ends have come. -/
structure Channel (ρ : Type) where
  sent : List ρ := []
  received : List ρ := []
  closed : Bool := false
  finished : Bool := false

/-- One move of a channel, or none. -/
inductive Move : Channel ρ → Unit → Channel ρ → Prop
  | idle (c : Channel ρ) : Move c () c
  | send {c : Channel ρ} (item : ρ) (opened : c.closed = false) :
      Move c () { c with sent := c.sent ++ [item] }
  | receive {c : Channel ρ} (item : ρ) (next : c.received ++ [item] <+: c.sent) :
      Move c () { c with received := c.received ++ [item] }
  | close (c : Channel ρ) : Move c () { c with closed := true }
  | finish {c : Channel ρ} (closed : c.closed = true) (empty : c.received = c.sent) :
      Move c () { c with finished := true }

/-- The received items are the first ones sent, and all of them once the receiver has
finished; it finishes only on a closed channel. -/
structure Orderly (c : Channel ρ) : Prop where
  inOrder : c.received <+: c.sent
  complete : c.finished = true → c.closed = true ∧ c.received = c.sent

/-- Nothing is sent on a closed channel, which stays closed. -/
theorem Move.closed {c c' : Channel ρ} {label : Unit} (move : Move c label c')
    (closed : c.closed = true) : c'.closed = true ∧ c'.sent = c.sent := by
  cases move with
  | idle => exact ⟨closed, rfl⟩
  | send item opened =>
    rw [closed] at opened
    cases opened
  | receive item next => exact ⟨closed, rfl⟩
  | close => exact ⟨rfl, rfl⟩
  | finish => exact ⟨closed, rfl⟩

/-- A move of a channel keeps it orderly. -/
theorem Move.orderly {c c' : Channel ρ} {label : Unit} (orderly : Orderly c)
    (move : Move c label c') : Orderly c' := by
  obtain ⟨inOrder, complete⟩ := orderly
  cases move with
  | idle => exact ⟨inOrder, complete⟩
  | send item opened =>
    constructor
    · exact inOrder.trans (List.prefix_append ..)
    · intro finished
      rw [(complete finished).1] at opened
      cases opened
  | receive item next =>
    constructor
    · exact next
    · intro finished
      -- Nothing is left to receive once the receiver has finished.
      obtain ⟨-, all⟩ := complete finished
      have longer := next.length_le
      simp only [all, List.length_append, List.length_singleton] at longer
      omega
  | close =>
    constructor
    · exact inOrder
    · intro finished
      exact ⟨rfl, (complete finished).2⟩
  | finish closed empty =>
    constructor
    · exact inOrder
    · intro _
      exact ⟨closed, empty⟩

/-- Along every path from the empty channel it stays orderly. -/
theorem orderly_of_path {past : List (Unit × Channel ρ)} {c : Channel ρ}
    (path : Runs.Path Move {} past c) : Orderly c := by
  have initial : Orderly ({} : Channel ρ) := ⟨List.prefix_rfl, by simp⟩
  exact path.preserves Orderly initial fun _ _ _ orderly move => move.orderly orderly

end MoEcat.Channels
