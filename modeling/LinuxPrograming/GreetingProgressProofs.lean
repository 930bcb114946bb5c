import LinuxPrograming.GreetingProofs
import Mathlib.Data.Fintype.Card

/-!
# Every client is greeted (`6-Socket/task1/`)

When no call fails but the `connect` of a client that comes before the server listens, the server
comes back to `accept` after each connection, and each client ends.

* **`Advances`** — a step of a client lowers its weight and leaves the others alone.
* **`Fine`** — who has been accepted is greeted, and who has not been refused has no message.
* **`clients_greeted`** — in a bounded number of steps, every client that connects prints the
  greeting and ends.
-/

namespace Greeting

open Transition

variable {ι : Type} {s s' : State ι} {args : ι → Args}

/-- The server is about to greet. -/
def ServerCtrl.greeting : ServerCtrl ι → Bool
  | .write (some _) => true
  | _ => false

/-- No call fails, but `connect` while nothing listens, and `write` writes everything. -/
def Succeeds (s : State ι) : Act ι → Prop
  | .server ok n => ok = true ∧ (s.server.greeting = true → n = HELLO.length)
  | .client i ok _ => ok = true ∨ (s.client i = .connect ∧ s.listening = false)
  | .sigpipe => True

instance (s : State ι) : DecidablePred (Succeeds s)
  | .sigpipe => .isTrue trivial
  | .client i ok _ =>
      inferInstanceAs (Decidable (ok = true ∨ (s.client i = .connect ∧ s.listening = false)))
  | .server ok n =>
      inferInstanceAs (Decidable (ok = true ∧ (s.server.greeting = true → n = HELLO.length)))

/-! ## The output of a client -/

/-- What a client prints that does not connect. -/
def Refused (a : Args) (out : List Printed) : Prop :=
  (a.argc ≠ 2 ∧ out = [.message .usage]) ∨
  (a.argc = 2 ∧ a.address = false ∧ out = [.message .ptonError]) ∨
  (a.argc = 2 ∧ a.address = true ∧ out = [.message .connectFailed])

/-- What a client has printed, by where it is. -/
def Outcome (a : Args) (out : List Printed) : ClientCtrl → Prop
  | .start => out = []
  | .socket | .inet_pton => a.argc = 2 ∧ out = []
  | .connect => a.argc = 2 ∧ a.address = true ∧ out = []
  | .read | .fputs _ | .ended 0 => a.argc = 2 ∧ a.address = true ∧ ∀ m, .message m ∉ out
  | .ended 1 => Refused a out
  | .ended _ => False

/-! ## What is left to do -/

def ClientCtrl.weight : ClientCtrl → Nat
  | .start => 8
  | .socket => 7
  | .inet_pton => 6
  | .connect => 5
  | .fputs _ => 2
  | .read => 1
  | .ended _ => 0

def ServerCtrl.weight : ServerCtrl ι → Nat
  | .socket => 3
  | .bind | .write _ => 2
  | .listen | .close _ => 1
  | .accept | .killed => 0

/-- The most steps that a client has left: two for each byte, and the calls around them. -/
def State.clientWeight (s : State ι) (i : ι) : Nat :=
  (s.client i).weight + 2 * (HELLO.length - (s.conn i).got)

/-- The most steps that the server has left. -/
def State.serverWeight (s : State ι) : Nat := s.server.weight + 3 * s.pending.length

def State.weight [Fintype ι] (s : State ι) : Nat :=
  s.serverWeight + Finset.univ.sum s.clientWeight

/-- The server does not go on after a call that has failed. -/
def ServerCtrl.sound : ServerCtrl ι → Bool
  | .write none | .close none | .killed => false
  | _ => true

/-- **The invariant when no call fails.** -/
structure Fine (args : ι → Args) (s : State ι) : Prop extends Inv s where
  sound   : s.server.sound = true
  greeted : ∀ i ∈ s.accepted, s.server ≠ .write (some i) → (s.conn i).sent = HELLO
  outcome : ∀ i, Outcome (args i) (s.output i) (s.client i)

theorem Fine.opening : Fine args (opening : State ι) where
  toInv := .opening
  sound := rfl
  greeted := fun _ h => by cases h
  outcome := fun _ => rfl

/-- What a step of client `i` does, if no call fails. -/
structure Advances (args : ι → Args) (i : ι) (s s' : State ι) : Prop where
  server   : s'.server = s.server
  accepted : s'.accepted = s.accepted
  sent     : ∀ j, (s'.conn j).sent = (s.conn j).sent
  others   : ∀ j, j ≠ i → s'.client j = s.client j ∧ s'.output j = s.output j ∧
    (s'.conn j).got = (s.conn j).got
  outcome  : Outcome (args i) (s'.output i) (s'.client i)
  less     : 3 * s'.pending.length + s'.clientWeight i < 3 * s.pending.length + s.clientWeight i

variable [DecidableEq ι]

theorem Advances.move {i : ι} {c : ClientCtrl} (hout : Outcome (args i) (s.output i) c)
    (hless : c.weight < (s.client i).weight) : Advances args i s (s.move i c) := by
  refine ⟨rfl, rfl, fun _ => rfl, ?_, ?_, ?_⟩
  · exact fun j hj => ⟨Function.update_of_ne hj .., rfl, rfl⟩
  · rw [move_client]
    exact hout
  · rw [State.clientWeight, move_client]
    exact Nat.add_lt_add_left (Nat.add_lt_add_right hless _) _

theorem Advances.print {i : ι} {c : ClientCtrl} {p : Printed}
    (hout : Outcome (args i) (s.output i ++ [p]) c) (hless : c.weight < (s.client i).weight) :
    Advances args i s (s.print i p c) := by
  refine ⟨rfl, rfl, fun _ => rfl, ?_, ?_, ?_⟩
  · exact fun j hj => ⟨Function.update_of_ne hj .., Function.update_of_ne hj .., rfl⟩
  · rw [print_client, print_output]
    exact hout
  · rw [State.clientWeight, print_client]
    exact Nat.add_lt_add_left (Nat.add_lt_add_right hless _) _

/-- The weight of joining the waiting connections is paid by `connect`. -/
theorem Advances.connect {i : ι} (hc : s.client i = .connect)
    (hout : Outcome (args i) (s.output i) .read) :
    Advances args i s { s.move i .read with pending := s.pending ++ [i] } := by
  refine ⟨rfl, rfl, fun _ => rfl, ?_, ?_, ?_⟩
  · exact fun j hj => ⟨Function.update_of_ne hj .., rfl, rfl⟩
  · show Outcome _ _ ((s.move i .read).client i)
    rw [move_client]
    exact hout
  · show 3 * (s.pending ++ [i]).length + (((s.move i .read).client i).weight + _) < _
    rw [move_client, State.clientWeight, hc, List.length_append, List.length_singleton]
    show 3 * (s.pending.length + 1) + (1 + 2 * (HELLO.length - (s.conn i).got))
      < 3 * s.pending.length + (5 + 2 * (HELLO.length - (s.conn i).got))
    omega

/-- The weight of what is read pays for printing it. -/
theorem Advances.receive {i : ι} {n : Nat} (hI : Inv s) (hc : s.client i = .read) (hn : n ≠ 0)
    (hle : n ≤ (s.conn i).inflight.length)
    (hout : ∀ bs, Outcome (args i) (s.output i) (.fputs bs)) :
    Advances args i s { s.move i (.fputs ((s.conn i).inflight.take n)) with
      conn := Function.update s.conn i ((s.conn i).receive n) } := by
  have hconn : ∀ j, Function.update s.conn i ((s.conn i).receive n) j
      = if j = i then (s.conn i).receive n else s.conn j := fun j => Function.update_apply ..
  refine ⟨rfl, rfl, ?_, ?_, ?_, ?_⟩
  · intro j
    show (Function.update s.conn i _ j).sent = _
    rw [hconn]
    by_cases hj : j = i
    · rw [if_pos hj, hj, ByteStream.sent_receive]
    · rw [if_neg hj]
  · intro j hj
    refine ⟨Function.update_of_ne hj .., rfl, ?_⟩
    show (Function.update s.conn i _ j).got = _
    rw [hconn, if_neg hj]
  · show Outcome _ _ ((s.move i _).client i)
    rw [move_client]
    exact hout _
  · show _ + (((s.move i _).client i).weight + 2 * (_ - (Function.update s.conn i _ i).got)) < _
    rw [move_client, hconn, if_pos rfl, State.clientWeight, hc]
    refine Nat.add_lt_add_left ?_ _
    show 2 + 2 * (HELLO.length - min ((s.conn i).got + n) (s.conn i).sent.length)
      < 1 + 2 * (HELLO.length - (s.conn i).got)
    have hsent : (s.conn i).sent.length ≤ HELLO.length := (hI.sent i).length_le
    have hlen : (s.conn i).inflight.length = (s.conn i).sent.length - (s.conn i).got :=
      List.length_drop ..
    omega

/-- **A step of a client, if no call fails.** -/
theorem Fine.client_advances {i : ι} {ok : Bool} {n : Nat} (hF : Fine args s)
    (hok : Succeeds s (.client i ok n)) (h : Greeting.clientStep args s i ok n = some s') :
    Advances args i s s' := by
  have hout := hF.outcome i
  rw [Greeting.clientStep] at h
  cases hc : s.client i with
  | start =>
      simp only [hc] at h hout
      rw [Outcome] at hout
      split at h
      · cases h
        refine .print (.inl ⟨‹_›, ?_⟩) (by rw [hc]; decide)
        rw [hout]
        rfl
      · cases h
        exact .move ⟨not_not.mp ‹_›, hout⟩ (by rw [hc]; decide)
  | socket =>
      simp only [hc] at h hout
      rcases hok with rfl | ⟨hat, -⟩
      · cases h
        exact .move hout (by rw [hc]; decide)
      · cases hc.symm.trans hat
  | inet_pton =>
      simp only [hc] at h hout
      obtain ⟨hargc, hnil⟩ := hout
      split at h
      · cases h
        exact .move ⟨hargc, ‹_›, hnil⟩ (by rw [hc]; decide)
      · cases h
        refine .print (.inr (.inl ⟨hargc, Bool.eq_false_iff.mpr ‹_›, ?_⟩)) (by rw [hc]; decide)
        rw [hnil]
        rfl
  | connect =>
      simp only [hc] at h hout
      obtain ⟨hargc, haddress, hnil⟩ := hout
      split at h
      · obtain ⟨-, heq⟩ := Option.ite_none_right_eq_some.mp h
        cases heq
        refine .connect hc ⟨hargc, haddress, fun m hm => ?_⟩
        rw [hnil] at hm
        cases hm
      · cases h
        refine .print (.inr (.inr ⟨hargc, haddress, ?_⟩)) (by rw [hc]; decide)
        rw [hnil]
        rfl
  | read =>
      simp only [hc] at h hout
      rcases hok with rfl | ⟨hat, -⟩
      · rw [if_pos rfl] at h
        split at h
        · obtain ⟨-, heq⟩ := Option.ite_none_right_eq_some.mp h
          cases heq
          exact .move hout (by rw [hc]; decide)
        · obtain ⟨⟨-, hle⟩, heq⟩ := Option.ite_none_right_eq_some.mp h
          cases heq
          exact .receive hF.toInv hc ‹_› hle fun _ => hout
      · cases hc.symm.trans hat
  | fputs recvBuff =>
      simp only [hc] at h hout
      rcases hok with rfl | ⟨hat, -⟩
      · cases h
        obtain ⟨hargc, haddress, hno⟩ := hout
        refine .print ⟨hargc, haddress, fun m hm => ?_⟩ (by rw [hc]; exact Nat.lt_succ_self 1)
        rcases List.mem_append.mp hm with hold | hnew
        · exact hno m hold
        · cases List.mem_singleton.mp hnew
      · cases hc.symm.trans hat
  | ended status =>
      simp only [hc] at h
      cases h

/-- A client advances while everything else stays as it is. -/
theorem Fine.advance {i : ι} (hF : Fine args s) (hI : Inv s') (hadv : Advances args i s s') :
    Fine args s' where
  toInv := hI
  sound := hadv.server ▸ hF.sound
  greeted := by
    rw [hadv.accepted, hadv.server]
    intro j hj hwrite
    exact (hadv.sent j).trans (hF.greeted j hj hwrite)
  outcome := by
    intro j
    by_cases hj : j = i
    · subst hj
      exact hadv.outcome
    · obtain ⟨hclient, houtput, -⟩ := hadv.others j hj
      rw [hclient, houtput]
      exact hF.outcome j

theorem Advances.weight_lt [Fintype ι] {i : ι} (hadv : Advances args i s s') :
    s'.weight < s.weight := by
  have hsum := sum_replace (f := s.clientWeight) (g := s'.clientWeight) i fun j hj => by
    obtain ⟨hclient, -, hgot⟩ := hadv.others j hj
    rw [State.clientWeight, State.clientWeight, hclient, hgot]
  have hless := hadv.less
  rw [State.weight, State.weight, State.serverWeight, State.serverWeight, hadv.server]
  omega

/-! ## The server -/

/-- What a step of the server does, if no call fails. -/
structure Serves (args : ι → Args) (s s' : State ι) : Prop where
  fine   : Fine args s'
  same   : ∀ i, s'.clientWeight i = s.clientWeight i
  less   : s'.serverWeight < s.serverWeight

omit [DecidableEq ι] in
/-- The server leaves the clients alone. -/
theorem Fine.serves (hF : Fine args s) (hI : Inv s') (hclient : s'.client = s.client)
    (houtput : s'.output = s.output) (hgot : ∀ i, (s'.conn i).got = (s.conn i).got)
    (hsound : s'.server.sound = true)
    (hgreeted : ∀ i ∈ s'.accepted, s'.server ≠ .write (some i) → (s'.conn i).sent = HELLO)
    (hless : s'.serverWeight < s.serverWeight) : Serves args s s' where
  fine :=
    { toInv := hI
      sound := hsound
      greeted := hgreeted
      outcome := hclient ▸ houtput ▸ hF.outcome }
  same := by
    intro i
    rw [State.clientWeight, State.clientWeight, hclient, hgot]
  less := hless

/-- **A step of the server, if no call fails.** -/
theorem Fine.server_serves {ok : Bool} {n : Nat} (hF : Fine args s)
    (hok : Succeeds s (.server ok n)) (h : Greeting.serverStep s ok n = some s') :
    Serves args s s' := by
  obtain ⟨rfl, hall⟩ := hok
  have hI : Inv s' := hF.toInv.serverStep h
  have hsound := hF.sound
  rw [Greeting.serverStep] at h
  cases hctrl : s.server with
  | socket | bind | listen =>
      simp only [hctrl] at h
      cases h
      refine hF.serves hI rfl rfl (fun _ => rfl) rfl ?_ ?_
      · intro i hi _
        exact hF.greeted i hi (by rw [hctrl]; exact fun h => by cases h)
      · rw [State.serverWeight, State.serverWeight, hctrl]
        exact Nat.add_lt_add_right (Nat.lt_succ_self _) _
  | accept =>
      simp only [hctrl, if_true] at h
      split at h
      · cases h
      · rename_i i rest hpending
        cases h
        refine hF.serves hI rfl rfl (fun _ => rfl) rfl ?_ ?_
        · intro j hj hwrite
          rcases List.mem_append.mp hj with hold | hnew
          · exact hF.greeted j hold (by rw [hctrl]; exact fun h => by cases h)
          · exact absurd (by rw [List.mem_singleton.mp hnew]) hwrite
        · rw [State.serverWeight, State.serverWeight, hctrl, hpending, List.length_cons]
          show 2 + 3 * rest.length < 0 + 3 * (rest.length + 1)
          omega
  | write connfd =>
      cases connfd with
      | none =>
          rw [hctrl] at hsound
          cases hsound
      | some i =>
          obtain rfl : n = HELLO.length := hall (by rw [hctrl]; rfl)
          simp only [hctrl, if_true] at h
          obtain ⟨-, heq⟩ := Option.ite_none_right_eq_some.mp h
          cases heq
          have hempty : (s.conn i).sent = [] := hF.unsent i (.inr hctrl)
          refine hF.serves hI rfl rfl ?_ rfl ?_ ?_
          · intro j
            show (Function.update s.conn i _ j).got = _
            rw [Function.update_apply]
            by_cases hj : j = i
            · rw [if_pos hj, hj]
              rfl
            · rw [if_neg hj]
          · intro j hj _
            show (Function.update s.conn i _ j).sent = HELLO
            rw [Function.update_apply]
            by_cases heq : j = i
            · rw [if_pos heq, ByteStream.sent_send, hempty, List.take_length]
              rfl
            · rw [if_neg heq]
              refine hF.greeted j hj ?_
              rw [hctrl]
              exact fun h => heq (by cases h; rfl)
          · rw [State.serverWeight, State.serverWeight, hctrl]
            exact Nat.add_lt_add_right (Nat.lt_succ_self 1) _
  | close connfd =>
      cases connfd with
      | none =>
          rw [hctrl] at hsound
          cases hsound
      | some i =>
          simp only [hctrl] at h
          cases h
          have hsame : ∀ j, (Function.update s.conn i (s.conn i).close j).got = (s.conn j).got ∧
              (Function.update s.conn i (s.conn i).close j).sent = (s.conn j).sent := by
            intro j
            rw [Function.update_apply]
            by_cases hj : j = i
            · rw [if_pos hj, hj]
              exact ⟨rfl, rfl⟩
            · rw [if_neg hj]
              exact ⟨rfl, rfl⟩
          refine hF.serves hI rfl rfl (fun j => (hsame j).1) rfl ?_ ?_
          · intro j hj _
            refine (hsame j).2.trans (hF.greeted j hj ?_)
            rw [hctrl]
            exact fun h => by cases h
          · rw [State.serverWeight, State.serverWeight, hctrl]
            exact Nat.add_lt_add_right Nat.zero_lt_one _
  | killed =>
      simp only [hctrl] at h
      cases h

omit [DecidableEq ι] in
theorem Serves.weight_lt [Fintype ι] (hserves : Serves args s s') : s'.weight < s.weight := by
  have hsame : s'.clientWeight = s.clientWeight := funext hserves.same
  rw [State.weight, State.weight, hsame]
  exact Nat.add_lt_add_right hserves.less _

/-- A client that the server writes to has not gone, so that it is not killed. -/
theorem Fine.no_sigpipe (hF : Fine args s) : sigpipe s = none := by
  rw [sigpipe]
  split
  · rename_i i hctrl
    have hin : i ∈ s.accepted := hF.serving i (by rw [hctrl]; rfl)
    have hjoined := (hF.joined i).mp (List.mem_append_right _ hin)
    have hout := hF.outcome i
    refine if_neg fun hgone => ?_
    cases hc : s.client i with
    | ended status =>
        rw [hc] at hjoined hout
        cases status with
        | zero =>
            -- it would have found the end of a connection that is open
            have heof := hF.eof i hc (hout.2.2 _)
            refine ((hF.shut i).mp heof.2).2 ?_
            rw [hctrl]
            rfl
        | succ n => cases hjoined
    | _ =>
        rw [hc] at hgone
        cases hgone
  · rfl

/-- **One step, if no call fails.** -/
theorem Fine.step [Fintype ι] {a : Act ι} (hF : Fine args s) (hok : Succeeds s a)
    (h : Greeting.step args s a = some s') : Fine args s' ∧ s'.weight < s.weight := by
  cases a with
  | server ok n =>
      have hserves := hF.server_serves hok h
      exact ⟨hserves.fine, hserves.weight_lt⟩
  | client i ok n =>
      have hadv := hF.client_advances hok h
      have hprints : Prints s (.client i ok n) := by
        rcases hok with hok | ⟨hc, -⟩
        · exact .inl hok
        · exact .inr (by rw [hc]; rfl)
      exact ⟨hF.advance (hF.toInv.clientStep hprints h) hadv, hadv.weight_lt⟩
  | sigpipe => cases hF.no_sigpipe.symm.trans h

/-! ## At rest -/

omit [DecidableEq ι] in
theorem weight_opening [Fintype ι] : (opening : State ι).weight = 58 * Fintype.card ι + 3 := by
  have hclients : Finset.univ.sum (opening : State ι).clientWeight = Fintype.card ι * 58 :=
    Finset.sum_const_nat fun _ _ => rfl
  rw [State.weight, hclients, Nat.mul_comm, Nat.add_comm]
  rfl

/-- The server comes to rest in `accept`, with nobody waiting. -/
theorem Fine.server_at_rest (hF : Fine args s) (hstuck : Stuck (Greeting.step args) Succeeds s) :
    s.server = .accept ∧ s.pending = [] := by
  have hstep : ∀ n, (s.server.greeting = true → n = HELLO.length) →
      Greeting.serverStep s true n = none := fun n hn => hstuck (.server true n) ⟨rfl, hn⟩
  have hsound := hF.sound
  have hall := hstep HELLO.length fun _ => rfl
  rw [Greeting.serverStep] at hall
  cases hctrl : s.server with
  | accept =>
      refine ⟨rfl, ?_⟩
      simp only [hctrl, if_true] at hall
      split at hall
      · assumption
      · cases hall
  | write connfd | close connfd =>
      cases connfd with
      | none =>
          rw [hctrl] at hsound
          cases hsound
      | some i =>
          simp only [hctrl, Nat.le_refl, if_true] at hall
          cases hall
  | killed =>
      rw [hctrl] at hsound
      cases hsound
  | socket | bind | listen =>
      simp only [hctrl] at hall
      cases hall

/-- A client comes to rest when it has ended. -/
theorem Fine.client_at_rest (hF : Fine args s) (hstuck : Stuck (Greeting.step args) Succeeds s)
    (i : ι) : ∃ status, s.client i = .ended status := by
  have hstep : ∀ n, Greeting.clientStep args s i true n = none :=
    fun n => hstuck (.client i true n) (.inl rfl)
  have hone := hstep 1
  have hzero := hstep 0
  rw [Greeting.clientStep] at hone hzero
  cases hc : s.client i with
  | ended status => exact ⟨status, rfl⟩
  | start | inet_pton =>
      simp only [hc] at hone
      split at hone <;> cases hone
  | socket | fputs recvBuff =>
      simp only [hc] at hone
      cases hone
  | connect =>
      simp only [hc, if_true] at hone
      split at hone
      · cases hone
      · have hlistening : s.listening = false := Bool.eq_false_iff.mpr ‹_›
        have hrefused : Greeting.clientStep args s i false 0 = none :=
          hstuck (.client i false 0) (.inr ⟨hc, hlistening⟩)
        simp only [Greeting.clientStep, hc] at hrefused
        cases hrefused
  | read =>
      obtain ⟨hctrl, hpending⟩ := hF.server_at_rest hstuck
      have hin : i ∈ s.pending ++ s.accepted := (hF.joined i).mpr (by rw [hc]; rfl)
      rw [hpending] at hin
      have hshut : (s.conn i).shut = true :=
        (hF.shut i).mpr ⟨hin, by rw [hctrl]; exact fun h => by cases h⟩
      cases hinflight : (s.conn i).inflight with
      | nil => simp [hc, hshut, hinflight] at hzero
      | cons b bs => simp [hc, hinflight, RECV_SIZE] at hone

/-- **EVERY CLIENT IS GREETED.**  If no call fails but the `connect` of a client that comes too
    early, and each `write` writes everything, server and clients take a bounded number of steps, in
    whatever order; when nothing moves any more the server is back in `accept`, each client that it
    has accepted has printed the greeting, and nothing else, and ended, and each of the others has
    printed why it could not connect. -/
theorem clients_greeted [Fintype ι] {as : List (Act ι)}
    (h : runWhen (Greeting.step args) Succeeds opening as = some s) :
    as.length ≤ 58 * Fintype.card ι + 3 ∧
    (Stuck (Greeting.step args) Succeeds s → s.server = .accept ∧ s.pending = [] ∧
      ∀ i, (i ∈ s.accepted ∧ s.client i = .ended 0 ∧ text (s.output i) = HELLO ∧
          ∀ m, .message m ∉ s.output i) ∨
        (i ∉ s.accepted ∧ s.client i = .ended 1 ∧ Refused (args i) (s.output i))) := by
  refine ⟨?_, fun hstuck => ?_⟩
  · have hlen := length_le_of_runWhen (Fine args) State.weight
      (fun _ _ _ hF hok hs => (hF.step hok hs).1) (fun _ _ _ hF hok hs => (hF.step hok hs).2)
      .opening h
    rw [weight_opening] at hlen
    exact Nat.le_of_add_right_le hlen
  · have hF : Fine args s := (reach_of_runWhen h).invariant .opening
      fun _ _ _ hF hok hs => (hF.step hok hs).1
    obtain ⟨hctrl, hpending⟩ := hF.server_at_rest hstuck
    refine ⟨hctrl, hpending, fun i => ?_⟩
    have haccepted : i ∈ s.accepted ↔ (s.client i).joined = true := by
      rw [← hF.joined i, hpending, List.nil_append]
    obtain ⟨status, hend⟩ := hF.client_at_rest hstuck i
    have hout := hF.outcome i
    rw [hend] at haccepted hout
    match status with
    | 0 =>
        have hin : i ∈ s.accepted := haccepted.mpr rfl
        have hread := hF.read i
        rw [hend] at hread
        refine .inl ⟨hin, hend, ?_, hout.2.2⟩
        calc text (s.output i) = text (s.output i) ++ [] := (List.append_nil _).symm
          _ = (s.conn i).received := hread
          _ = (s.conn i).sent :=
            (s.conn i).received_of_inflight_nil (hF.eof i hend (hout.2.2 _)).1
          _ = HELLO := hF.greeted i hin (by rw [hctrl]; exact fun h => by cases h)
    | 1 => exact .inr ⟨fun hin => (by cases haccepted.mp hin), hend, hout⟩

/-- A server, a client that comes too early and one that is greeted in two pieces. -/
def greetsOne : List (Act Bool) :=
  [.client false true 0, .client false true 0, .client false true 0, .client false false 0,
    .server true 0, .server true 0, .server true 0,
    .client true true 0, .client true true 0, .client true true 0, .client true true 0,
    .server true 0, .server true 25, .client true true 20, .client true true 0, .server true 0,
    .client true true 5, .client true true 0, .client true true 0]

/-- The theorem for that run: one client is refused, and the other one prints the greeting. -/
theorem clients_greeted_one : ∃ s : State Bool,
    runWhen (Greeting.step fun _ => ⟨2, true⟩) Succeeds opening greetsOne = some s ∧
    text (s.output true) = HELLO ∧ Refused ⟨2, true⟩ (s.output false) := by
  obtain ⟨s, hs, hf⟩ := Option.map_eq_some_iff.mp
    (show (runWhen (Greeting.step fun _ : Bool => ⟨2, true⟩) Succeeds opening greetsOne).map
        (fun s => (s.server, s.pending, s.client true, s.client false))
      = some (.accept, [], .ended 0, .ended 1) by decide +kernel)
  simp only [Prod.mk.injEq] at hf
  obtain ⟨hctrl, hpending, htrue, hfalse⟩ := hf
  have hstuck : Stuck (Greeting.step fun _ : Bool => ⟨2, true⟩) Succeeds s := by
    intro a hok
    cases a with
    | server ok n =>
        obtain ⟨rfl, -⟩ := hok
        simp [Greeting.step, serverStep, hctrl, hpending]
    | client i ok n => cases i <;> simp [Greeting.step, clientStep, htrue, hfalse]
    | sigpipe => simp [Greeting.step, sigpipe, hctrl]
  have hends := ((clients_greeted hs).2 hstuck).2.2
  refine ⟨s, hs, ?_, ?_⟩
  · rcases hends true with ⟨-, -, htext, -⟩ | ⟨-, hend, -⟩
    · exact htext
    · cases htrue.symm.trans hend
  · rcases hends false with ⟨-, hend, -⟩ | ⟨-, -, hrefused⟩
    · cases hfalse.symm.trans hend
    · exact hrefused

end Greeting
