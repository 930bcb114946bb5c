import Mathlib.Data.List.Perm.Basic
import Mathlib.Algebra.GroupWithZero.Nat

/-!
# Datagram networks

Datagrams between sockets with addresses in `α`.  What is sent is in flight until the network
delivers it to the queue of its destination or drops it; it delivers in any order, and it neither
duplicates nor makes up anything.  A socket takes the oldest datagram of its queue.

`all` is everything between a send and a receive.  Each operation changes it by at most the one
datagram it is about.

* **`perm_send`**, **`perm_deliver`**, **`sublist_drop`**, **`perm_recv`** — how.
* **`outstanding_send`**, …, **`outstanding_recv`** — for the number of datagrams with a property.
* **`weight_send`**, **`weight_deliver`**, … — for a weight of the datagrams on their way.
-/

namespace Datagram

/-- A datagram with its source and destination. -/
structure Packet (α β : Type) where
  src  : α
  dst  : α
  data : β
deriving DecidableEq

/-- The datagrams in flight, and those in the queues of their destinations, the oldest first. -/
structure Network (α β : Type) where
  flying  : List (Packet α β)
  arrived : List (Packet α β)

namespace Network

variable {α β : Type}

def quiet : Network α β := ⟨[], []⟩

/-- Everything between a send and a receive. -/
def all (n : Network α β) : List (Packet α β) := n.flying ++ n.arrived

def send (n : Network α β) (d : Packet α β) : Network α β := { n with flying := n.flying ++ [d] }

/-- The datagram in flight with index `i` arrives. -/
def deliver (n : Network α β) (i : Nat) : Option (Network α β) :=
  n.flying[i]?.map fun d => ⟨n.flying.eraseIdx i, n.arrived ++ [d]⟩

/-- The datagram in flight with index `i` is lost. -/
def drop (n : Network α β) (i : Nat) : Option (Network α β) :=
  if i < n.flying.length then some { n with flying := n.flying.eraseIdx i } else none

/-- The oldest datagram in the queue of `a`; `none` as long as the queue is empty. -/
def recv [DecidableEq α] (n : Network α β) (a : α) : Option (Packet α β × Network α β) :=
  (n.arrived.find? fun d => decide (d.dst = a)).map fun d =>
    (d, { n with arrived := n.arrived.eraseP fun d => decide (d.dst = a) })

variable {n n' : Network α β} {d : Packet α β} {i : Nat}

theorem perm_send : (n.send d).all.Perm (d :: n.all) := by
  show (n.flying ++ [d] ++ n.arrived).Perm (d :: (n.flying ++ n.arrived))
  rw [List.append_assoc, List.singleton_append]
  exact List.perm_middle

theorem perm_deliver (h : n.deliver i = some n') : n'.all.Perm n.all := by
  obtain ⟨d, hd, rfl⟩ := Option.map_eq_some_iff.mp h
  obtain ⟨hi, rfl⟩ := List.getElem?_eq_some_iff.mp hd
  show (n.flying.eraseIdx i ++ (n.arrived ++ [n.flying[i]])).Perm (n.flying ++ n.arrived)
  have harrive : (n.arrived ++ [n.flying[i]]).Perm (n.flying[i] :: n.arrived) :=
    List.perm_append_singleton ..
  have hleave : (n.flying[i] :: n.flying.eraseIdx i).Perm n.flying :=
    List.getElem_cons_eraseIdx_perm hi
  exact ((harrive.append_left _).trans List.perm_middle).trans (hleave.append_right n.arrived)

theorem sublist_drop (h : n.drop i = some n') : n'.all.Sublist n.all := by
  obtain ⟨-, heq⟩ := Option.ite_none_right_eq_some.mp h
  cases heq
  exact (List.eraseIdx_sublist n.flying i).append_right n.arrived

theorem perm_recv [DecidableEq α] {a : α} (h : n.recv a = some (d, n')) :
    d.dst = a ∧ n.all.Perm (d :: n'.all) := by
  obtain ⟨e, he, heq⟩ := Option.map_eq_some_iff.mp h
  cases heq
  obtain ⟨hdst, older, newer, hqueue, holder⟩ := List.find?_eq_some_iff_append.mp he
  have herase : n.arrived.eraseP (fun d => decide (d.dst = a)) = older ++ newer := by
    rw [hqueue, List.eraseP_append_right _ (by simpa using holder)]
    exact congrArg (older ++ ·) (List.eraseP_cons_of_pos hdst)
  refine ⟨of_decide_eq_true hdst, ?_⟩
  show (n.flying ++ n.arrived).Perm (d :: (n.flying ++ n.arrived.eraseP _))
  rw [herase, hqueue]
  exact (List.perm_middle.append_left _).trans List.perm_middle

/-! ## What is outstanding -/

/-- The number of datagrams with property `p` between a send and a receive. -/
def outstanding (p : Packet α β → Prop) [DecidablePred p] (n : Network α β) : Nat :=
  n.all.countP fun d => decide (p d)

variable {p : Packet α β → Prop} [DecidablePred p]

theorem outstanding_eq_zero (h : n.outstanding p = 0) (hd : d ∈ n.all) : ¬ p d := by
  have := List.countP_eq_zero.mp h d hd
  simpa using this

theorem outstanding_send : (n.send d).outstanding p = n.outstanding p + if p d then 1 else 0 := by
  rw [outstanding, perm_send.countP_eq, List.countP_cons]
  simp [outstanding]

theorem outstanding_deliver (h : n.deliver i = some n') : n'.outstanding p = n.outstanding p :=
  (perm_deliver h).countP_eq _

theorem outstanding_drop (h : n.drop i = some n') : n'.outstanding p ≤ n.outstanding p :=
  (sublist_drop h).countP_le

theorem outstanding_recv [DecidableEq α] {a : α} (h : n.recv a = some (d, n')) :
    n.outstanding p = n'.outstanding p + if p d then 1 else 0 := by
  rw [outstanding, (perm_recv h).2.countP_eq, List.countP_cons]
  simp [outstanding]

/-- Exactly one datagram is lost. -/
theorem outstanding_lost (h : n.drop i = some n') :
    ∃ d ∈ n.flying, ∀ (p : Packet α β → Prop) [DecidablePred p],
      n.outstanding p = n'.outstanding p + if p d then 1 else 0 := by
  obtain ⟨hi, heq⟩ := Option.ite_none_right_eq_some.mp h
  cases heq
  refine ⟨n.flying[i], List.getElem_mem hi, ?_⟩
  intro p _
  have hperm : (n.flying[i] :: n.flying.eraseIdx i).Perm n.flying :=
    List.getElem_cons_eraseIdx_perm hi
  rw [outstanding, all, ← (hperm.append_right n.arrived).countP_eq, List.cons_append,
    List.countP_cons]
  simp [outstanding, all]

/-! ## Weighing what is on its way -/

/-- A datagram in flight weighs `f`, one that has arrived `g`. -/
def weight (f g : Packet α β → Nat) (n : Network α β) : Nat :=
  (n.flying.map f).sum + (n.arrived.map g).sum

variable {f g : Packet α β → Nat}

theorem weight_send : (n.send d).weight f g = n.weight f g + f d := by
  show ((n.flying ++ [d]).map f).sum + (n.arrived.map g).sum
    = (n.flying.map f).sum + (n.arrived.map g).sum + f d
  rw [List.map_append, List.sum_append, List.map_singleton, List.sum_singleton]
  omega

theorem weight_erase {i : Nat} {l : List (Packet α β)} (hi : i < l.length) :
    ((l.eraseIdx i).map f).sum + f l[i] = (l.map f).sum := by
  have hperm : (l[i] :: l.eraseIdx i).Perm l := List.getElem_cons_eraseIdx_perm hi
  rw [← (hperm.map f).sum_nat, List.map_cons, List.sum_cons, Nat.add_comm]

theorem weight_deliver (h : n.deliver i = some n') :
    ∃ d, n'.weight f g + f d = n.weight f g + g d := by
  obtain ⟨d, hd, rfl⟩ := Option.map_eq_some_iff.mp h
  obtain ⟨hi, rfl⟩ := List.getElem?_eq_some_iff.mp hd
  refine ⟨n.flying[i], ?_⟩
  have hleave := weight_erase (f := f) hi
  show ((n.flying.eraseIdx i).map f).sum + ((n.arrived ++ [n.flying[i]]).map g).sum + _
    = (n.flying.map f).sum + (n.arrived.map g).sum + _
  rw [List.map_append, List.sum_append, List.map_singleton, List.sum_singleton]
  omega

theorem weight_drop (h : n.drop i = some n') : ∃ d, n'.weight f g + f d = n.weight f g := by
  obtain ⟨hi, heq⟩ := Option.ite_none_right_eq_some.mp h
  cases heq
  refine ⟨n.flying[i], ?_⟩
  have hleave := weight_erase (f := f) hi
  show ((n.flying.eraseIdx i).map f).sum + (n.arrived.map g).sum + _
    = (n.flying.map f).sum + (n.arrived.map g).sum
  omega

theorem weight_recv [DecidableEq α] {a : α} (h : n.recv a = some (d, n')) :
    n.weight f g = n'.weight f g + g d := by
  have hflying : n'.flying = n.flying := by
    obtain ⟨e, -, heq⟩ := Option.map_eq_some_iff.mp h
    cases heq
    rfl
  have hperm : n.arrived.Perm (d :: n'.arrived) := by
    have hall : (n.flying ++ n.arrived).Perm (n'.flying ++ d :: n'.arrived) :=
      (perm_recv h).2.trans List.perm_middle.symm
    rw [hflying] at hall
    exact (List.perm_append_left_iff n.flying).mp hall
  have harrived := (hperm.map g).sum_nat
  rw [List.map_cons, List.sum_cons] at harrived
  rw [weight, weight, hflying, harrived]
  omega

/-! ## When nothing moves -/

theorem flying_eq_nil (h : ∀ i, n.deliver i = none) : n.flying = [] := by
  have h0 := Option.map_eq_none_iff.mp (h 0)
  exact List.length_eq_zero_iff.mp (Nat.le_zero.mp (List.getElem?_eq_none_iff.mp h0))

theorem recv_eq_none [DecidableEq α] {a : α} (h : n.recv a = none) (hd : d ∈ n.arrived) :
    d.dst ≠ a := by
  have hfind := List.find?_eq_none.mp (Option.map_eq_none_iff.mp h) d hd
  simpa using hfind

end Network

end Datagram
