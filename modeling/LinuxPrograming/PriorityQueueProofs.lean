import Mathlib.Order.Lattice
import Mathlib.Data.List.Basic
import Mathlib.Data.List.Pairwise
import LinuxPrograming.LedgerProofs
import LinuxPrograming.TransitionProofs

/-!
# Priority queues that keep the order of arrival

A queue hands out an entry of the highest priority, and of these the one that arrived first.  The
books of what has arrived and of what has been handed out are a `Ledger`, so that each entry is
handed out once; what is waiting is what remains in it.

* **`head_first`** — what is handed out has no entry before it.
* **`in_order`** — two entries that once wait together are handed out in their order, whatever
  arrives and is handed out in the meantime.
* **`serves_of_reach`** — as long as nothing arrives, what is handed out comes sorted, and before
  what is left.
-/

/-- An entry: the number of its arrival, its priority and what it carries. -/
structure PriorityEntry (κ α : Type) where
  seq  : Nat
  prio : κ
  val  : α
deriving DecidableEq

/-- Higher priority, or the same priority and an earlier arrival. -/
def PriorityEntry.Before {κ α : Type} [LinearOrder κ] (a b : PriorityEntry κ α) : Prop :=
  b.prio < a.prio ∨ (a.prio = b.prio ∧ a.seq < b.seq)

/-- The books of a queue; entries are numbered as they arrive. -/
structure PriorityQueue (κ α : Type) [DecidableEq κ] [DecidableEq α] where
  ledger   : Ledger (PriorityEntry κ α)
  numbered : ledger.made.map PriorityEntry.seq = List.range ledger.made.length

namespace PriorityQueue

/-- A pair of entries is in order in a list without repetitions if it is so in a longer one and the
    second entry is in the list. -/
theorem pair_sublist_of_append {α : Type} {a b : α} {l r : List α} (hnd : (l ++ r).Nodup)
    (h : [a, b].Sublist (l ++ r)) (hb : b ∈ l) : [a, b].Sublist l := by
  have hbr : b ∉ r := fun hr => (List.nodup_append.mp hnd).2.2 b hb b hr rfl
  obtain ⟨l₁, l₂, hsplit, h₁, h₂⟩ := List.sublist_append_iff.mp h
  -- where the pair is cut: the second entry is not behind the cut
  match l₁, hsplit with
  | [], hsplit =>
      refine absurd (h₂.subset ?_) hbr
      rw [List.nil_append] at hsplit
      rw [← hsplit]
      exact List.mem_cons_of_mem a (List.mem_singleton_self b)
  | [x], hsplit =>
      refine absurd (h₂.subset ?_) hbr
      rw [List.singleton_append, List.cons.injEq] at hsplit
      rw [← hsplit.2]
      exact List.mem_singleton_self b
  | x :: y :: l₁, hsplit =>
      rw [List.cons_append, List.cons_append, List.cons.injEq, List.cons.injEq] at hsplit
      obtain ⟨rfl, rfl, hnil⟩ := hsplit
      rw [(List.append_eq_nil_iff.mp hnil.symm).1] at h₁
      exact h₁

section Books

variable {κ α : Type} [DecidableEq κ] [DecidableEq α] (q : PriorityQueue κ α)

/-- Everything that has arrived, in the order of arrival. -/
def arrived : List (PriorityEntry κ α) := q.ledger.made

/-- Everything that has been handed out, in that order. -/
def served : List (PriorityEntry κ α) := q.ledger.gone

/-- What is in the queue, in the order of arrival. -/
def waiting : List (PriorityEntry κ α) := q.ledger.remaining

/-- Nothing has arrived. -/
def fresh : PriorityQueue κ α := ⟨Ledger.empty, rfl⟩

/-- The entry that the next arrival makes. -/
def nextEntry (prio : κ) (val : α) : PriorityEntry κ α := ⟨q.arrived.length, prio, val⟩

theorem seq_lt {e : PriorityEntry κ α} (h : e ∈ q.arrived) : e.seq < q.arrived.length := by
  have : e.seq ∈ q.ledger.made.map PriorityEntry.seq := List.mem_map_of_mem h
  rw [q.numbered] at this
  exact List.mem_range.mp this

theorem nextEntry_new (prio : κ) (val : α) : q.nextEntry prio val ∉ q.ledger.made :=
  fun h => Nat.lt_irrefl _ (q.seq_lt h)

/-- An arrival. -/
def arrive (prio : κ) (val : α) : PriorityQueue κ α where
  ledger := q.ledger.make (q.nextEntry prio val) (q.nextEntry_new prio val)
  numbered := by
    show (q.ledger.made ++ [q.nextEntry prio val]).map PriorityEntry.seq
      = List.range (q.ledger.made ++ [q.nextEntry prio val]).length
    rw [List.map_append, q.numbered, List.length_append, List.length_singleton, List.range_succ]
    rfl

/-- Hand out an entry that is waiting. -/
def handOut (e : PriorityEntry κ α) (h : e ∈ q.waiting) : PriorityQueue κ α :=
  ⟨q.ledger.take e h, q.numbered⟩

@[simp] theorem arrived_fresh : (fresh : PriorityQueue κ α).arrived = [] := rfl
@[simp] theorem served_fresh : (fresh : PriorityQueue κ α).served = [] := rfl
@[simp] theorem arrived_arrive (prio : κ) (val : α) :
    (q.arrive prio val).arrived = q.arrived ++ [q.nextEntry prio val] := rfl
@[simp] theorem served_arrive (prio : κ) (val : α) : (q.arrive prio val).served = q.served := rfl
@[simp] theorem waiting_arrive (prio : κ) (val : α) :
    (q.arrive prio val).waiting = q.waiting ++ [q.nextEntry prio val] :=
  q.ledger.remaining_make (q.nextEntry prio val) (q.nextEntry_new prio val)
@[simp] theorem arrived_handOut (e : PriorityEntry κ α) (h : e ∈ q.waiting) :
    (q.handOut e h).arrived = q.arrived := rfl
@[simp] theorem served_handOut (e : PriorityEntry κ α) (h : e ∈ q.waiting) :
    (q.handOut e h).served = q.served ++ [e] := rfl

/-- What waits has arrived and has not been handed out. -/
theorem mem_waiting {e : PriorityEntry κ α} : e ∈ q.waiting ↔ e ∈ q.arrived ∧ e ∉ q.served :=
  Ledger.mem_remaining

/-- Nothing is handed out twice. -/
theorem served_nodup : q.served.Nodup := q.ledger.gone_nodup

/-- Nothing is handed out that has not arrived. -/
theorem served_subset : q.served ⊆ q.arrived := q.ledger.gone_made

/-- What waits is numbered in increasing order. -/
theorem waiting_sorted : q.waiting.Pairwise fun a b => a.seq < b.seq := by
  have h : (q.ledger.made.map PriorityEntry.seq).Pairwise (· < ·) := by
    rw [q.numbered]
    exact List.pairwise_lt_range
  exact (List.pairwise_map.mp h).filter _

/-- What has been handed out does not wait any more. -/
theorem mem_waiting_handOut {e x : PriorityEntry κ α} (h : e ∈ q.waiting) :
    x ∈ (q.handOut e h).waiting ↔ x ∈ q.waiting ∧ x ≠ e := by
  rw [mem_waiting, mem_waiting, arrived_handOut, served_handOut, List.mem_append,
    List.mem_singleton, not_or, and_assoc]

end Books

section Order

variable {κ α : Type} [LinearOrder κ] [DecidableEq α] (q : PriorityQueue κ α)

/-- The first entry of the highest priority. -/
def head : Option (PriorityEntry κ α) :=
  q.waiting.find? fun e => q.waiting.all fun y => decide (y.prio ≤ e.prio)

theorem head_mem {e : PriorityEntry κ α} (h : q.head = some e) : e ∈ q.waiting :=
  List.mem_of_find?_eq_some h

/-- The entry handed out next, and the queue without it. -/
def serve : Option (PriorityEntry κ α × PriorityQueue κ α) :=
  match h : q.head with
  | none => none
  | some e => some (e, q.handOut e (q.head_mem h))

/-- What is handed out has no entry before it. -/
theorem head_first {e y : PriorityEntry κ α} (h : q.head = some e) (hy : y ∈ q.waiting) :
    ¬ y.Before e := by
  obtain ⟨hmax, as, bs, hsplit, has⟩ := List.find?_eq_some_iff_append.mp h
  have hmax' : ∀ x ∈ q.waiting, x.prio ≤ e.prio := by simpa using hmax
  rintro (hlt | ⟨heq, hseq⟩)
  · exact absurd (hmax' y hy) (not_le_of_gt hlt)
  · -- `y` has the highest priority as well, so it is not in front of `e`
    have hy' := hy
    rw [hsplit, List.mem_append, List.mem_cons] at hy'
    rcases hy' with hy' | rfl | hy'
    · have hall : (q.waiting.all fun x => decide (x.prio ≤ y.prio)) = true := by
        rw [heq]
        exact hmax
      have := has y hy'
      rw [hall] at this
      cases this
    · exact Nat.lt_irrefl _ hseq
    · have hsorted := q.waiting_sorted
      rw [hsplit, List.pairwise_append, List.pairwise_cons] at hsorted
      exact Nat.lt_asymm hseq (hsorted.2.1.1 y hy')

omit [DecidableEq α] in
/-- A nonempty list has an entry of the highest priority. -/
theorem exists_highest {l : List (PriorityEntry κ α)} (hl : l ≠ []) :
    ∃ e ∈ l, ∀ y ∈ l, y.prio ≤ e.prio := by
  induction l with
  | nil => exact absurd rfl hl
  | cons x l ih =>
      rcases eq_or_ne l [] with rfl | hne
      · refine ⟨x, List.mem_singleton_self x, ?_⟩
        intro y hy
        rw [List.mem_singleton.mp hy]
      · obtain ⟨e, he, hmax⟩ := ih hne
        rcases le_total x.prio e.prio with hle | hle
        · exact ⟨e, List.mem_cons_of_mem x he, List.forall_mem_cons.mpr ⟨hle, hmax⟩⟩
        · refine ⟨x, List.mem_cons_self, List.forall_mem_cons.mpr ⟨le_refl _, ?_⟩⟩
          intro y hy
          exact (hmax y hy).trans hle

/-- Only the empty queue has nothing to hand out. -/
theorem head_eq_none : q.head = none ↔ q.waiting = [] := by
  constructor
  · intro h
    by_contra hne
    obtain ⟨e, he, hmax⟩ := exists_highest hne
    exact List.find?_eq_none.mp h e he (by simpa using hmax)
  · intro h
    rw [head]
    rw [h]
    rfl

/-- `serve` hands out something exactly if there is a head. -/
theorem serve_eq_none : q.serve = none ↔ q.head = none := by
  unfold serve
  split
  case h_1 hh => exact iff_of_true rfl hh
  case h_2 e hh =>
    refine iff_of_false (fun h => by cases h) ?_
    intro hnone
    cases hh.symm.trans hnone

/-- What `serve` does: it hands out the head. -/
theorem serve_eq_some {e : PriorityEntry κ α} {q' : PriorityQueue κ α}
    (h : q.serve = some (e, q')) : ∃ hh : q.head = some e, q' = q.handOut e (q.head_mem hh) := by
  rw [serve] at h
  split at h
  · cases h
  · cases h
    exact ⟨‹_›, rfl⟩

/-- One entry less waits. -/
theorem waiting_handOut_length {e : PriorityEntry κ α} (h : e ∈ q.waiting) :
    (q.handOut e h).waiting.length + 1 = q.waiting.length := by
  have hrest : (q.handOut e h).waiting = q.waiting.erase e := q.ledger.remaining_take e h
  rw [hrest, List.length_erase_of_mem h]
  exact Nat.sub_add_cancel (List.length_pos_of_mem h)

/-- Two entries that wait are in one order or the other. -/
theorem before_total {a b : PriorityEntry κ α} (ha : a ∈ q.waiting) (hb : b ∈ q.waiting)
    (hne : a ≠ b) : a.Before b ∨ b.Before a := by
  have hsymm : Std.Symm fun a b : PriorityEntry κ α => a.seq ≠ b.seq := ⟨fun _ _ h => Ne.symm h⟩
  have hseq : a.seq ≠ b.seq := (q.waiting_sorted.imp Nat.ne_of_lt).forall ha hb hne
  rcases lt_trichotomy a.prio b.prio with hlt | heq | hgt
  · exact .inr (.inl hlt)
  · rcases Nat.lt_or_gt_of_ne hseq with hlt | hgt
    · exact .inl (.inr ⟨heq, hlt⟩)
    · exact .inr (.inr ⟨heq.symm, hgt⟩)
  · exact .inl (.inl hgt)

/-! ## Runs -/

/-- What happens to a queue. -/
inductive Event (κ α : Type) where
  | arrive (prio : κ) (val : α)
  | serve

/-- A queue that is empty serves nothing. -/
def step (q : PriorityQueue κ α) : Event κ α → Option (PriorityQueue κ α)
  | .arrive prio val => some (q.arrive prio val)
  | .serve => q.serve.map Prod.snd

variable {q}

/-- What a step of a queue is. -/
theorem step_cases {q' : PriorityQueue κ α} {ev : Event κ α} (h : step q ev = some q') :
    (∃ prio val, q' = q.arrive prio val)
      ∨ ∃ (e : _) (hh : q.head = some e), q' = q.handOut e (q.head_mem hh) := by
  cases ev with
  | arrive prio val =>
      cases h
      exact .inl ⟨prio, val, rfl⟩
  | serve =>
      obtain ⟨⟨e, q₁⟩, hs, rfl⟩ := Option.map_eq_some_iff.mp h
      exact .inr ⟨e, q.serve_eq_some hs⟩

/-- Where two entries are that once waited together: both wait, or the first has been handed out,
    or both have been handed out in this order. -/
def Ordered (a b : PriorityEntry κ α) (q : PriorityQueue κ α) : Prop :=
  (a ∈ q.waiting ∧ b ∈ q.waiting) ∨ (a ∈ q.served ∧ b ∈ q.waiting) ∨ [a, b].Sublist q.served

/-- One step keeps the order of two entries, the first of which is before the second. -/
theorem Ordered.step {a b : PriorityEntry κ α} {q' : PriorityQueue κ α} {ev : Event κ α}
    (hab : a.Before b) (h : Ordered a b q) (hs : PriorityQueue.step q ev = some q') :
    Ordered a b q' := by
  rcases step_cases hs with ⟨prio, val, rfl⟩ | ⟨e, hh, rfl⟩
  · rcases h with ⟨ha, hb⟩ | ⟨ha, hb⟩ | h
    · exact .inl ⟨by simp [ha], by simp [hb]⟩
    · exact .inr (.inl ⟨ha, by simp [hb]⟩)
    · exact .inr (.inr h)
  · have he := q.head_mem hh
    rcases h with ⟨ha, hb⟩ | ⟨ha, hb⟩ | h
    · -- `b` is not handed out while `a` waits
      have hbe : b ≠ e := by
        rintro rfl
        exact q.head_first hh ha hab
      have hb' : b ∈ (q.handOut e he).waiting := (q.mem_waiting_handOut he).mpr ⟨hb, hbe⟩
      by_cases hae : a = e
      · exact .inr (.inl ⟨by simp [hae], hb'⟩)
      · exact .inl ⟨(q.mem_waiting_handOut he).mpr ⟨ha, hae⟩, hb'⟩
    · by_cases hbe : b = e
      · refine .inr (.inr ?_)
        rw [served_handOut, hbe]
        exact (List.singleton_sublist.mpr ha).append (List.Sublist.refl [e])
      · refine .inr (.inl ⟨?_, (q.mem_waiting_handOut he).mpr ⟨hb, hbe⟩⟩)
        exact List.mem_append_left _ ha
    · exact .inr (.inr (h.trans (List.sublist_append_left _ _)))

/-- **IN ORDER**: of two entries that once wait together, the second is handed out only after the
    first. -/
theorem in_order {a b : PriorityEntry κ α} {q' : PriorityQueue κ α}
    (h : Transition.Reachable step q q') (ha : a ∈ q.waiting) (hb : b ∈ q.waiting)
    (hab : a.Before b) (hserved : b ∈ q'.served) : [a, b].Sublist q'.served := by
  have hord : Ordered a b q' :=
    h.invariant (.inl ⟨ha, hb⟩) fun _ _ _ hord _ hs => hord.step hab hs
  rcases hord with ⟨-, hb'⟩ | ⟨-, hb'⟩ | h
  · exact absurd hserved (q'.mem_waiting.mp hb').2
  · exact absurd hserved (q'.mem_waiting.mp hb').2
  · exact h

/-! ## Serving only -/

/-- From `q` to `q'` the entries `ws` are handed out, sorted, and each before what is left. -/
structure Serves (q q' : PriorityQueue κ α) (ws : List (PriorityEntry κ α)) : Prop where
  arrived : q'.arrived = q.arrived
  served  : q'.served = q.served ++ ws
  waiting : (ws ++ q'.waiting).Perm q.waiting
  sorted  : ws.Pairwise PriorityEntry.Before
  ahead   : ∀ a ∈ ws, ∀ b ∈ q'.waiting, a.Before b

theorem Serves.refl (q : PriorityQueue κ α) : Serves q q [] where
  arrived := rfl
  served := (List.append_nil _).symm
  waiting := List.Perm.refl _
  sorted := List.Pairwise.nil
  ahead := fun _ ha => (by cases ha)

/-- The head is handed out next. -/
theorem Serves.next {q' : PriorityQueue κ α} {ws : List (PriorityEntry κ α)}
    {e : PriorityEntry κ α} (h : Serves q q' ws) (hh : q'.head = some e) :
    Serves q (q'.handOut e (q'.head_mem hh)) (ws ++ [e]) := by
  have he := q'.head_mem hh
  refine ⟨h.arrived, ?_, ?_, ?_, ?_⟩
  · rw [served_handOut, h.served, List.append_assoc]
  · refine List.Perm.trans ?_ h.waiting
    have hrest : (q'.handOut e he).waiting = q'.waiting.erase e := q'.ledger.remaining_take e he
    rw [hrest, List.append_assoc]
    exact (List.perm_cons_erase he).symm.append_left ws
  · refine List.pairwise_append.mpr ⟨h.sorted, List.pairwise_singleton .., ?_⟩
    intro a ha b hb
    rw [List.mem_singleton.mp hb]
    exact h.ahead a ha e he
  · intro a ha b hb
    obtain ⟨hb, hbe⟩ := (q'.mem_waiting_handOut he).mp hb
    rcases List.mem_append.mp ha with ha | ha
    · exact h.ahead a ha b hb
    · rw [List.mem_singleton.mp ha]
      rcases q'.before_total he hb (Ne.symm hbe) with heb | hbe
      · exact heb
      · exact absurd hbe (q'.head_first hh hb)

/-- **SERVED IN ORDER**: as long as nothing arrives, what is handed out comes sorted, and before
    what is left. -/
theorem serves_of_reach {q' : PriorityQueue κ α}
    (h : Transition.Reach step (fun _ ev => ev = Event.serve) q q') :
    ∃ ws, Serves q q' ws := by
  induction h with
  | init => exact ⟨[], .refl q⟩
  | next _ hok hs ih =>
      obtain ⟨ws, hws⟩ := ih
      subst hok
      obtain ⟨⟨e, q₁⟩, hserve, rfl⟩ := Option.map_eq_some_iff.mp hs
      obtain ⟨hh, rfl⟩ := serve_eq_some _ hserve
      exact ⟨ws ++ [e], hws.next hh⟩

end Order

end PriorityQueue
