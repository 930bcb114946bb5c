import Mathlib.Data.List.Basic
import Mathlib.Algebra.BigOperators.Group.Finset.Basic

/-!
# Reliable byte streams

One direction of a connected stream: what the writer has sent, how much of it the reader has taken,
and whether the writer has closed its end.  Bytes come out in the order they went in, none is lost
and none is repeated, whatever the sizes of the reads: that is `received_append_inflight`, and it
holds by construction, because the reader's position is a field with its bound.

`sum_replace` is what a potential that sums over the endpoints of many streams needs: only one of
them changes in a step.
-/

/-- A stream of `α`s from one writer to one reader. -/
structure ByteStream (α : Type) where
  sent   : List α
  got    : Nat
  got_le : got ≤ sent.length
  shut   : Bool

namespace ByteStream

variable {α : Type} (c : ByteStream α)

/-- What the reader has taken so far. -/
def received : List α := c.sent.take c.got

/-- What is on the way. -/
def inflight : List α := c.sent.drop c.got

/-- Nothing sent, and the writer's end open. -/
def fresh : ByteStream α := ⟨[], 0, Nat.zero_le _, false⟩

/-- The writer appends `bs`. -/
def send (bs : List α) : ByteStream α :=
  ⟨c.sent ++ bs, c.got, by rw [List.length_append]; exact Nat.le_add_right_of_le c.got_le, c.shut⟩

/-- The reader takes the next `n` elements, or all there are. -/
def receive (n : Nat) : ByteStream α :=
  ⟨c.sent, min (c.got + n) c.sent.length, Nat.min_le_right _ _, c.shut⟩

/-- The writer closes its end. -/
def close : ByteStream α := ⟨c.sent, c.got, c.got_le, true⟩

/-- **Nothing lost, nothing repeated, in order.** -/
theorem received_append_inflight : c.received ++ c.inflight = c.sent := List.take_append_drop ..

@[simp] theorem received_fresh : (fresh : ByteStream α).received = [] := rfl
@[simp] theorem inflight_fresh : (fresh : ByteStream α).inflight = [] := rfl
@[simp] theorem sent_send (bs : List α) : (c.send bs).sent = c.sent ++ bs := rfl
@[simp] theorem sent_receive (n : Nat) : (c.receive n).sent = c.sent := rfl
@[simp] theorem sent_close : c.close.sent = c.sent := rfl
@[simp] theorem shut_send (bs : List α) : (c.send bs).shut = c.shut := rfl
@[simp] theorem shut_receive (n : Nat) : (c.receive n).shut = c.shut := rfl
@[simp] theorem shut_close : c.close.shut = true := rfl
@[simp] theorem received_close : c.close.received = c.received := rfl
@[simp] theorem inflight_close : c.close.inflight = c.inflight := rfl

@[simp] theorem received_send (bs : List α) : (c.send bs).received = c.received :=
  List.take_append_of_le_length c.got_le

@[simp] theorem inflight_send (bs : List α) : (c.send bs).inflight = c.inflight ++ bs :=
  List.drop_append_of_le_length c.got_le

theorem received_receive (n : Nat) : (c.receive n).received = c.received ++ c.inflight.take n := by
  show c.sent.take (min (c.got + n) c.sent.length) = _
  rw [← List.take_eq_take_min, List.take_add]
  rfl

theorem inflight_receive (n : Nat) : (c.receive n).inflight = c.inflight.drop n := by
  have hsplit : (c.receive n).received ++ (c.receive n).inflight
      = (c.receive n).received ++ c.inflight.drop n := by
    rw [received_append_inflight, received_receive, List.append_assoc, List.take_append_drop,
      received_append_inflight]
    rfl
  exact List.append_cancel_left hsplit

/-- A reader that has caught up has all that was sent. -/
theorem received_of_inflight_nil (h : c.inflight = []) : c.received = c.sent := by
  rw [← c.received_append_inflight, h, List.append_nil]

end ByteStream

/-- Two sums that differ at one index only. -/
theorem sum_replace {ι : Type} [Fintype ι] [DecidableEq ι] {f g : ι → Nat} (p : ι)
    (h : ∀ q, q ≠ p → f q = g q) :
    (Finset.univ.sum f) + g p = (Finset.univ.sum g) + f p := by
  have hrest : (Finset.univ.erase p).sum f = (Finset.univ.erase p).sum g :=
    Finset.sum_congr rfl fun q hq => h q (Finset.ne_of_mem_erase hq)
  have hf : f p + (Finset.univ.erase p).sum f = Finset.univ.sum f :=
    Finset.add_sum_erase Finset.univ f (Finset.mem_univ p)
  have hg : g p + (Finset.univ.erase p).sum g = Finset.univ.sum g :=
    Finset.add_sum_erase Finset.univ g (Finset.mem_univ p)
  omega
