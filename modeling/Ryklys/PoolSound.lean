import Ryklys.ConnectionPool

/-!
# The pools conserve their connections

Every step of a lease keeps the table of leases conserved, the path on which a
replacement throws included, so both pools hold the same number of connections
in every state of every run, each of them in one place (`pools_conserve`).
-/

namespace Ryklys

open Runs

namespace Pool

structure Conserves (size : Nat) (s : Pool) : Prop where
  count : s.leases.idle.length + s.held.card + s.between.card = size
  idle_nodup : s.leases.idle.Nodup
  exclusive : ∀ l ∈ s.held ∪ s.between, ∀ l' ∈ s.held ∪ s.between, s.leases.item l = s.leases.item l' → l = l'
  not_idle : ∀ l ∈ s.held ∪ s.between, s.leases.item l ∉ s.leases.idle

/-- A connection made later is not on the table yet. -/
structure Inv (size : Nat) (s : Pool) : Prop where
  conserved : s.leases.Conserved size
  all : s.leases.All (· < s.made)

variable {size : Nat} {s : Pool} {l : Nat}

theorem held_union_between (s : Pool) : s.held ∪ s.between = s.leases.live :=
  Finset.filter_union_filter_not_eq _ _

theorem Inv.conserves (h : Inv size s) : Conserves size s := by
  have hcard : s.held.card + s.between.card = s.leases.live.card := Finset.card_filter_add_card_filter_not _
  refine ⟨?_, h.conserved.nodup, ?_, ?_⟩
  · rw [Nat.add_assoc, hcard]
    exact h.conserved.count
  · rw [held_union_between]
    exact h.conserved.exclusive
  · rw [held_union_between]
    exact h.conserved.not_idle

theorem inv_create (size : Nat) : Inv size (create size) := by
  refine ⟨⟨by simp [create], List.nodup_range, ?_, ?_⟩, ?_, ?_⟩
  · intro l hl
    cases hl
  · intro l hl
    cases hl
  · intro conn hconn
    exact List.mem_range.mp hconn
  · intro l hl
    cases hl

theorem inv_setPhase (h : Inv size s) (phase : LeasePhase) : Inv size (s.setPhase l phase) := ⟨h.conserved, h.all⟩

theorem inv_pop (h : Inv size s) : Inv size (s.pop l) := by
  unfold pop
  split
  · exact h
  · rename_i conn idle hi
    by_cases hl : l ∈ s.leases.live
    · rw [if_pos hl]
      exact h
    · rw [if_neg hl]
      exact ⟨Leases.take_conserved h.conserved hi hl, Leases.take_all h.all hi⟩

theorem inv_push (h : Inv size s) (hl : l ∈ s.leases.live) : Inv size (s.push l) :=
  ⟨Leases.handBack_conserved h.conserved hl, Leases.handBack_all h.all hl⟩

theorem inv_replace (h : Inv size s) : Inv size (s.replace l) := by
  have hidle : s.made ∉ s.leases.idle := fun hm => Nat.lt_irrefl _ (h.all.1 _ hm)
  have hlive : ∀ l ∈ s.leases.live, s.leases.item l ≠ s.made := fun l hl => Nat.ne_of_lt (h.all.2 l hl)
  have hall : s.leases.All (· < s.made + 1) :=
    ⟨fun conn hc => Nat.lt_succ_of_lt (h.all.1 conn hc), fun l hl => Nat.lt_succ_of_lt (h.all.2 l hl)⟩
  exact ⟨Leases.exchange_conserved h.conserved hidle hlive, Leases.exchange_all hall (Nat.lt_succ_self _)⟩

end Pool

open Pool

theorem pgStep_inv {size : Nat} {s : Pool} (op : PGOp) (h : Inv size s) : Inv size (pgStep s op) := by
  cases op with
  | pop l => exact inv_pop h
  | isOpen l alive => exact or_stay h fun _ => inv_setPhase h _
  | makeConnection l throws =>
    refine or_stay h fun _ => ?_
    cases throws with
    | true => exact inv_setPhase h _
    | false => exact inv_replace h
  | destroy l => exact or_stay h fun _ => inv_setPhase h _
  | freeConnection l =>
    refine or_stay h fun hat => ?_
    rcases hat with hat | hat
    · exact inv_push h hat.1
    · exact inv_push h hat.1

theorem redisStep_inv {size : Nat} {s : Pool} (op : RedisOp) (h : Inv size s) : Inv size (redisStep s op) := by
  cases op with
  | acquire l => exact inv_pop h
  | construct l => exact or_stay h fun _ => inv_setPhase h _
  | destroy l => exact or_stay h fun _ => inv_setPhase h _
  | release l => exact or_stay h fun hat => inv_push h hat.1

/-- **Conservation.** No run of either pool loses, adds or shares a connection. -/
theorem pools_conserve (size : Nat) :
    (∀ ops : List PGOp, Conserves size (run pgStep (create size) ops)) ∧
      (∀ ops : List RedisOp, Conserves size (run redisStep (create size) ops)) := by
  constructor
  · intro ops
    exact (invariant pgStep (J := Inv size) (fun _ op => pgStep_inv op) ops (inv_create size)).conserves
  · intro ops
    exact (invariant redisStep (J := Inv size) (fun _ op => redisStep_inv op) ops (inv_create size)).conserves

/-- A pool of two whose first connection is found dead and cannot be replaced. -/
example : (run pgStep (create 2)
    [.pop 0, .pop 1, .isOpen 0 false, .makeConnection 0 true, .isOpen 1 true, .freeConnection 0]).leases.idle = [0] := by
  decide

end Ryklys
