import LinuxPrograming.TransitionProofs
import LinuxPrograming.ByteStreamProofs
import Mathlib.Data.List.TakeWhile

/-!
# The greeting server and its clients (`6-Socket/task1/`)

The server greets one connection after the other and never ends; it looks at the result of none of
its calls, so that a call that has failed makes the later ones fail.  A client copies what it reads
to its standard output until end-of-file.  A step is one call, with what it returns; `sleep` and
`snprintf` are left out, as they only delay and always write the same text.

* **`Inv`** — what a client has printed and holds in its buffer is what it has received, and what it
  has been sent is the beginning of the greeting.
* **`greeting_prefix`** — so it prints the beginning of the greeting, whatever fails.
-/

namespace Greeting

open Transition

/-! ## The program -/

/-- `"Hello client from server\n"`. -/
def HELLO : List UInt8 :=
  [72, 101, 108, 108, 111, 32, 99, 108, 105, 101, 110, 116, 32, 102, 114, 111, 109, 32, 115, 101,
    114, 118, 101, 114, 10]

/-- `sizeof(recvBuff) - 1`. -/
def RECV_SIZE : Nat := 1023

/-- Where the server is: before the call that the control point names; `none` is the descriptor
    `-1`.  `SIGPIPE` may kill it in `write`. -/
inductive ServerCtrl (ι : Type) where
  | socket
  | bind
  | listen
  | accept
  | write (connfd : Option ι)
  | close (connfd : Option ι)
  | killed
deriving DecidableEq

/-- The messages of a client, by the `printf` that writes them. -/
inductive Message where
  | usage
  | noSocket
  | ptonError
  | connectFailed
  | fputsError
  | readError
deriving DecidableEq

/-- What a client writes to its standard output. -/
inductive Printed where
  | text (bs : List UInt8)
  | message (m : Message)
deriving DecidableEq

/-- Where a client is; `fputs` has what has been read in `recvBuff`. -/
inductive ClientCtrl where
  | start
  | socket
  | inet_pton
  | connect
  | read
  | fputs (recvBuff : List UInt8)
  | ended (status : Nat)
deriving DecidableEq

/-- The arguments of a client, and whether the first one is the text of an address. -/
structure Args where
  argc    : Nat
  address : Bool

/-- The server with its socket, the connections that wait to be accepted and those that have been
    (ghost), the bytes on each connection, and the clients with their output.  `listening` is at the
    port that the clients know: after a `bind` that has failed it is at another one. -/
structure State (ι : Type) where
  server    : ServerCtrl ι
  opened    : Bool
  bound     : Bool
  listening : Bool
  pending   : List ι
  accepted  : List ι
  conn      : ι → ByteStream UInt8
  client    : ι → ClientCtrl
  output    : ι → List Printed

/-- A call of the server or of a client, which succeeds or not, and the number of bytes that it
    writes or reads; or the end of the server. -/
inductive Act (ι : Type) where
  | server (ok : Bool) (n : Nat)
  | client (i : ι) (ok : Bool) (n : Nat)
  | sigpipe

variable {ι : Type}

/-- The client has ended, so that its socket is closed. -/
def ClientCtrl.gone : ClientCtrl → Bool
  | .ended _ => true
  | _ => false

section Steps

variable [DecidableEq ι]

/-- `main` of `server.c`; a descriptor that is not there makes a call fail. -/
def serverStep (s : State ι) (ok : Bool) (n : Nat) : Option (State ι) :=
  match s.server with
  | .socket => some { s with server := .bind, opened := ok }
  | .bind => some { s with server := .listen, bound := ok && s.opened }
  | .listen => some { s with server := .accept, listening := ok && s.bound }
  | .accept =>
      if ok then
        match s.pending with
        | [] => none
        | i :: rest =>
            some { s with
              server := .write (some i), pending := rest, accepted := s.accepted ++ [i] }
      else some { s with server := .write none }
  | .write none => some { s with server := .close none }
  | .write (some i) =>
      if ok then
        if n ≤ HELLO.length then
          some { s with
            server := .close (some i)
            conn := Function.update s.conn i ((s.conn i).send (HELLO.take n)) }
        else none
      else some { s with server := .close (some i) }
  | .close none => some { s with server := .accept }
  | .close (some i) =>
      some { s with server := .accept, conn := Function.update s.conn i (s.conn i).close }
  | .killed => none

/-- A client is elsewhere. -/
def State.move (s : State ι) (i : ι) (c : ClientCtrl) : State ι :=
  { s with client := Function.update s.client i c }

/-- A client prints something and is elsewhere. -/
def State.print (s : State ι) (i : ι) (p : Printed) (c : ClientCtrl) : State ι :=
  { s.move i c with output := Function.update s.output i (s.output i ++ [p]) }

theorem move_client (s : State ι) (i : ι) (c : ClientCtrl) : (s.move i c).client i = c :=
  Function.update_self ..

theorem print_client (s : State ι) (i : ι) (p : Printed) (c : ClientCtrl) :
    (s.print i p c).client i = c :=
  Function.update_self ..

theorem print_output (s : State ι) (i : ι) (p : Printed) (c : ClientCtrl) :
    (s.print i p c).output i = s.output i ++ [p] :=
  Function.update_self ..

/-- `main` of `client.c`. -/
def clientStep (args : ι → Args) (s : State ι) (i : ι) (ok : Bool) (n : Nat) : Option (State ι) :=
  match s.client i with
  | .start =>
      if (args i).argc ≠ 2 then some (s.print i (.message .usage) (.ended 1))
      else some (s.move i .socket)
  | .socket =>
      if ok then some (s.move i .inet_pton)
      else some (s.print i (.message .noSocket) (.ended 1))
  | .inet_pton =>
      if (args i).address then some (s.move i .connect)
      else some (s.print i (.message .ptonError) (.ended 1))
  | .connect =>
      if ok then
        if s.listening then some { s.move i .read with pending := s.pending ++ [i] } else none
      else some (s.print i (.message .connectFailed) (.ended 1))
  | .read =>
      if ok then
        if n = 0 then
          -- end-of-file
          if (s.conn i).inflight = [] ∧ (s.conn i).shut = true then some (s.move i (.ended 0))
          else none
        else if n ≤ RECV_SIZE ∧ n ≤ (s.conn i).inflight.length then
          some { s.move i (.fputs ((s.conn i).inflight.take n)) with
            conn := Function.update s.conn i ((s.conn i).receive n) }
        else none
      else some (s.print i (.message .readError) (.ended 0))
  | .fputs recvBuff =>
      -- up to the first NUL
      if ok then some (s.print i (.text (recvBuff.takeWhile fun c => c != 0)) .read)
      else some (s.print i (.message .fputsError) .read)
  | .ended _ => none

/-- `write` to a client that has gone; all descriptors of the server are closed. -/
def sigpipe (s : State ι) : Option (State ι) :=
  match s.server with
  | .write (some i) =>
      if (s.client i).gone then
        some { s with
          server := .killed
          listening := false
          conn := Function.update s.conn i (s.conn i).close }
      else none
  | _ => none

def step (args : ι → Args) (s : State ι) : Act ι → Option (State ι)
  | .server ok n => serverStep s ok n
  | .client i ok n => clientStep args s i ok n
  | .sigpipe => sigpipe s

end Steps

/-- Before everything. -/
def opening : State ι where
  server := .socket
  opened := false
  bound := false
  listening := false
  pending := []
  accepted := []
  conn := fun _ => .fresh
  client := fun _ => .start
  output := fun _ => []

/-! ## What a client prints -/

/-- What has been read, among what has been printed. -/
def text (out : List Printed) : List UInt8 :=
  out.flatMap fun
    | .text bs => bs
    | .message _ => []

@[simp] theorem text_text (out : List Printed) (bs : List UInt8) :
    text (out ++ [.text bs]) = text out ++ bs := by simp [text]

@[simp] theorem text_message (out : List Printed) (m : Message) :
    text (out ++ [.message m]) = text out := by simp [text]

/-- The connection that the server is busy with. -/
def ServerCtrl.serving : ServerCtrl ι → Option ι
  | .write connfd | .close connfd => connfd
  | _ => none

/-- The client has connected, and has not failed before. -/
def ClientCtrl.joined : ClientCtrl → Bool
  | .read | .fputs _ | .ended 0 => true
  | _ => false

/-- What has been read and not printed. -/
def ClientCtrl.buffer : ClientCtrl → List UInt8
  | .fputs recvBuff => recvBuff
  | _ => []

/-- No `fputs` fails. -/
def Prints (s : State ι) : Act ι → Prop
  | .client i ok _ => ok = true ∨ (s.client i).buffer = []
  | .server _ _ | .sigpipe => True

instance (s : State ι) (a : Act ι) : Decidable (Prints s a) := by
  cases a <;> unfold Prints <;> infer_instance

/-- **The invariant of all runs in which no `fputs` fails.** -/
structure Inv (s : State ι) : Prop where
  once    : (s.pending ++ s.accepted).Nodup
  serving : ∀ i, s.server.serving = some i → i ∈ s.accepted
  sent    : ∀ i, (s.conn i).sent <+: HELLO
  unsent  : ∀ i, i ∉ s.accepted ∨ s.server = .write (some i) → (s.conn i).sent = []
  shut    : ∀ i, (s.conn i).shut = true ↔ i ∈ s.accepted ∧ s.server.serving ≠ some i
  joined  : ∀ i, i ∈ s.pending ++ s.accepted ↔ (s.client i).joined = true
  read    : ∀ i, text (s.output i) ++ (s.client i).buffer = (s.conn i).received
  eof     : ∀ i, s.client i = .ended 0 → .message .readError ∉ s.output i →
    (s.conn i).inflight = [] ∧ (s.conn i).shut = true

theorem Inv.opening : Inv (opening : State ι) where
  once := List.nodup_nil
  serving := fun _ h => by cases h
  sent := fun _ => List.nil_prefix
  unsent := fun _ _ => rfl
  shut := fun _ => iff_of_false (fun h => by cases h) (fun h => by cases h.1)
  joined := fun _ => iff_of_false (fun h => by cases h) (fun h => by cases h)
  read := fun _ => rfl
  eof := fun _ h => by cases h

variable [DecidableEq ι] {s s' : State ι} {args : ι → Args}

omit [DecidableEq ι] in
/-- Client `i` moves on, and does not touch the list of connections. -/
theorem Inv.client_moves (i : ι) (hI : Inv s) (hserver : s'.server = s.server)
    (hpending : s'.pending = s.pending) (haccepted : s'.accepted = s.accepted)
    (hothers : ∀ j, j ≠ i → s'.conn j = s.conn j ∧ s'.client j = s.client j ∧
      s'.output j = s.output j)
    (hsent : (s'.conn i).sent = (s.conn i).sent) (hshut : (s'.conn i).shut = (s.conn i).shut)
    (hjoined : (s'.client i).joined = (s.client i).joined)
    (hread : text (s'.output i) ++ (s'.client i).buffer = (s'.conn i).received)
    (heof : s'.client i = .ended 0 → .message .readError ∉ s'.output i →
      (s'.conn i).inflight = [] ∧ (s'.conn i).shut = true) : Inv s' := by
  -- of the other clients nothing has changed
  have hall : ∀ j, (s'.conn j).sent = (s.conn j).sent ∧ (s'.conn j).shut = (s.conn j).shut ∧
      (s'.client j).joined = (s.client j).joined := by
    intro j
    by_cases hj : j = i
    · subst hj
      exact ⟨hsent, hshut, hjoined⟩
    · obtain ⟨hc, hcl, -⟩ := hothers j hj
      rw [hc, hcl]
      exact ⟨rfl, rfl, rfl⟩
  refine ⟨?_, ?_, ?_, ?_, ?_, ?_, ?_, ?_⟩
  · rw [hpending, haccepted]
    exact hI.once
  · rw [hserver, haccepted]
    exact hI.serving
  · intro j
    rw [(hall j).1]
    exact hI.sent j
  · intro j
    rw [hserver, haccepted, (hall j).1]
    exact hI.unsent j
  · intro j
    rw [hserver, haccepted, (hall j).2.1]
    exact hI.shut j
  · intro j
    rw [hpending, haccepted, (hall j).2.2]
    exact hI.joined j
  · intro j
    by_cases hj : j = i
    · subst hj
      exact hread
    · obtain ⟨hc, hcl, ho⟩ := hothers j hj
      rw [hc, hcl, ho]
      exact hI.read j
  · intro j
    by_cases hj : j = i
    · subst hj
      exact heof
    · obtain ⟨hc, hcl, ho⟩ := hothers j hj
      rw [hc, hcl, ho]
      exact hI.eof j

/-- Client `i` goes on to `c`, and leaves its connection alone. -/
theorem Inv.move {i : ι} {c : ClientCtrl} (hI : Inv s) (hjoined : c.joined = (s.client i).joined)
    (hbuffer : c.buffer = (s.client i).buffer)
    (heof : c = .ended 0 → (s.conn i).inflight = [] ∧ (s.conn i).shut = true) :
    Inv (s.move i c) := by
  refine client_moves i hI rfl rfl rfl ?_ rfl rfl ?_ ?_ ?_
  · exact fun j hj => ⟨rfl, Function.update_of_ne hj .., rfl⟩
  · rw [move_client]
    exact hjoined
  · rw [move_client, hbuffer]
    exact hI.read i
  · rw [move_client]
    exact fun hc _ => heof hc

/-- Client `i` prints and goes on to `c`. -/
theorem Inv.print {i : ι} {c : ClientCtrl} {p : Printed} (hI : Inv s)
    (hjoined : c.joined = (s.client i).joined) (hbuffer : c.buffer = [])
    (htext : text (s.output i ++ [p]) = text (s.output i) ++ (s.client i).buffer)
    (heof : c = .ended 0 → p = .message .readError) : Inv (s.print i p c) := by
  refine client_moves i hI rfl rfl rfl ?_ rfl rfl ?_ ?_ ?_
  · exact fun j hj => ⟨rfl, Function.update_of_ne hj .., Function.update_of_ne hj ..⟩
  · rw [print_client]
    exact hjoined
  · rw [print_client, print_output, hbuffer, htext, List.append_nil]
    exact hI.read i
  · rw [print_client, print_output]
    intro hc hno
    exact absurd (List.mem_append_right _ (List.mem_singleton.mpr (heof hc).symm)) hno

/-- Client `i` joins the waiting connections. -/
theorem Inv.connect {i : ι} (hI : Inv s) (hjoined : (s.client i).joined = false)
    (hbuffer : (s.client i).buffer = []) :
    Inv { s.move i .read with pending := s.pending ++ [i] } := by
  have hnew : i ∉ s.pending ++ s.accepted := by
    intro hin
    cases hjoined.symm.trans ((hI.joined i).mp hin)
  have hperm : (s.pending ++ [i] ++ s.accepted).Perm (i :: (s.pending ++ s.accepted)) := by
    rw [List.append_assoc]
    exact List.perm_middle
  have hclient : ∀ j, (s.move i .read).client j
      = if j = i then .read else s.client j := fun j => Function.update_apply ..
  refine ⟨?_, hI.serving, hI.sent, hI.unsent, hI.shut, ?_, ?_, ?_⟩
  · exact hperm.nodup_iff.mpr (List.nodup_cons.mpr ⟨hnew, hI.once⟩)
  · intro j
    show j ∈ s.pending ++ [i] ++ s.accepted ↔ ((s.move i .read).client j).joined = true
    rw [hperm.mem_iff, List.mem_cons, hclient, hI.joined]
    by_cases hj : j = i
    · rw [if_pos hj]
      exact iff_of_true (.inl hj) rfl
    · rw [if_neg hj]
      exact or_iff_right hj
  · intro j
    show text (s.output j) ++ ((s.move i .read).client j).buffer = (s.conn j).received
    rw [hclient]
    by_cases hj : j = i
    · subst hj
      rw [if_pos rfl]
      have hread := hI.read j
      rw [hbuffer] at hread
      exact hread
    · rw [if_neg hj]
      exact hI.read j
  · intro j
    show (s.move i .read).client j = .ended 0 → _
    rw [hclient]
    by_cases hj : j = i
    · rw [if_pos hj]
      exact fun h => by cases h
    · rw [if_neg hj]
      exact hI.eof j

/-- Client `i` reads. -/
theorem Inv.receive {i : ι} (hI : Inv s) (hc : s.client i = .read) (n : Nat) :
    Inv { s.move i (.fputs ((s.conn i).inflight.take n)) with
      conn := Function.update s.conn i ((s.conn i).receive n) } := by
  have hconn : Function.update s.conn i ((s.conn i).receive n) i = (s.conn i).receive n :=
    Function.update_self ..
  refine client_moves i hI rfl rfl rfl ?_ ?_ ?_ ?_ ?_ ?_
  · exact fun j hj => ⟨Function.update_of_ne hj .., Function.update_of_ne hj .., rfl⟩
  · show (Function.update s.conn i _ i).sent = _
    rw [hconn, ByteStream.sent_receive]
  · show (Function.update s.conn i _ i).shut = _
    rw [hconn, ByteStream.shut_receive]
  · show ((s.move i _).client i).joined = _
    rw [move_client, hc]
    rfl
  · have hread := hI.read i
    rw [hc] at hread
    show text (s.output i) ++ ((s.move i _).client i).buffer
      = (Function.update s.conn i _ i).received
    rw [move_client, hconn, ByteStream.received_receive, ← hread]
    simp [ClientCtrl.buffer]
  · show (s.move i _).client i = _ → _
    rw [move_client]
    exact fun h => by cases h

omit [DecidableEq ι] in
/-- What has been read is part of the greeting, and has no NUL in it. -/
theorem Inv.noNul {i : ι} (hI : Inv s) :
    (s.client i).buffer.takeWhile (fun c => c != 0) = (s.client i).buffer := by
  refine List.takeWhile_eq_self_iff.mpr ?_
  intro c hc
  have hreceived : c ∈ (s.conn i).received := hI.read i ▸ List.mem_append_right _ hc
  have hhello : c ∈ HELLO := (hI.sent i).subset ((List.take_sublist _ _).subset hreceived)
  have hnul : ∀ c ∈ HELLO, (c != 0) = true := by simp [HELLO]
  exact hnul c hhello

/-- **A step of a client keeps the invariant.** -/
theorem Inv.clientStep {i : ι} {ok : Bool} {n : Nat} (hI : Inv s)
    (hprints : Prints s (.client i ok n)) (h : Greeting.clientStep args s i ok n = some s') :
    Inv s' := by
  rw [Greeting.clientStep] at h
  cases hc : s.client i with
  | start =>
      simp only [hc] at h
      split at h
      · cases h
        exact hI.print (by rw [hc]; rfl) rfl (by rw [hc]; simp [ClientCtrl.buffer])
          (fun h => by cases h)
      · cases h
        exact hI.move (by rw [hc]; rfl) (by rw [hc]; rfl) (fun h => by cases h)
  | socket | inet_pton =>
      simp only [hc] at h
      split at h
      · cases h
        exact hI.move (by rw [hc]; rfl) (by rw [hc]; rfl) (fun h => by cases h)
      · cases h
        exact hI.print (by rw [hc]; rfl) rfl (by rw [hc]; simp [ClientCtrl.buffer])
          (fun h => by cases h)
  | connect =>
      simp only [hc] at h
      split at h
      · obtain ⟨-, heq⟩ := Option.ite_none_right_eq_some.mp h
        cases heq
        exact hI.connect (by rw [hc]; rfl) (by rw [hc]; rfl)
      · cases h
        exact hI.print (by rw [hc]; rfl) rfl (by rw [hc]; simp [ClientCtrl.buffer])
          (fun h => by cases h)
  | read =>
      simp only [hc] at h
      split at h
      · split at h
        · obtain ⟨heof, heq⟩ := Option.ite_none_right_eq_some.mp h
          cases heq
          exact hI.move (by rw [hc]; rfl) (by rw [hc]; rfl) (fun _ => heof)
        · obtain ⟨-, heq⟩ := Option.ite_none_right_eq_some.mp h
          cases heq
          exact hI.receive hc n
      · cases h
        exact hI.print (by rw [hc]; rfl) rfl (by rw [hc]; simp [ClientCtrl.buffer]) (fun _ => rfl)
  | fputs recvBuff =>
      simp only [hc] at h
      split at h
      · cases h
        refine hI.print (by rw [hc]; rfl) rfl ?_ (fun h => by cases h)
        have hall := hI.noNul (i := i)
        rw [hc] at hall
        rw [text_text, hc]
        exact congrArg _ hall
      · rcases hprints with hok | hnone
        · exact absurd hok ‹_›
        · cases h
          refine hI.print (by rw [hc]; rfl) rfl ?_ (fun h => by cases h)
          rw [text_message, hnone, List.append_nil]
  | ended status =>
      simp only [hc] at h
      cases h

omit [DecidableEq ι] in
/-- The server goes on to `c`, with the same connection. -/
theorem Inv.server_moves (hI : Inv s) {c : ServerCtrl ι} (hsame : c.serving = s.server.serving)
    (hwrite : ∀ i, c ≠ .write (some i)) {opened bound listening : Bool} :
    Inv { s with server := c, opened := opened, bound := bound, listening := listening } := by
  refine ⟨hI.once, ?_, hI.sent, ?_, ?_, hI.joined, hI.read, hI.eof⟩
  · intro i hi
    exact hI.serving i (hsame.symm.trans hi)
  · rintro i (hnew | hc)
    · exact hI.unsent i (.inl hnew)
    · exact absurd hc (hwrite i)
  · intro i
    show _ ↔ _ ∧ c.serving ≠ some i
    rw [hsame]
    exact hI.shut i

omit [DecidableEq ι] in
/-- The server accepts connection `i`. -/
theorem Inv.accept {i : ι} {rest : List ι} (hI : Inv s) (hctrl : s.server = .accept)
    (hpending : s.pending = i :: rest) :
    Inv { s with
      server := .write (some i), pending := rest, accepted := s.accepted ++ [i] } := by
  have hperm : (rest ++ (s.accepted ++ [i])).Perm (s.pending ++ s.accepted) := by
    rw [hpending, ← List.append_assoc]
    exact List.perm_append_singleton i _
  have hnew : i ∉ s.accepted := by
    have honce := hI.once
    rw [hpending] at honce
    exact fun hin => (List.nodup_cons.mp honce).1 (List.mem_append_right _ hin)
  have hacc : ∀ j, j ∈ s.accepted ++ [i] ↔ j ∈ s.accepted ∨ j = i := by simp
  refine ⟨hperm.nodup_iff.mpr hI.once, ?_, hI.sent, ?_, ?_, ?_, hI.read, hI.eof⟩
  · intro j hj
    cases hj
    exact (hacc i).mpr (.inr rfl)
  · rintro j (hj | hj)
    · exact hI.unsent j (.inl fun hin => hj ((hacc j).mpr (.inl hin)))
    · cases hj
      exact hI.unsent i (.inl hnew)
  · intro j
    show (s.conn j).shut = true ↔ j ∈ s.accepted ++ [i] ∧ some i ≠ some j
    have hshut := hI.shut j
    rw [hctrl] at hshut
    rw [hshut, hacc]
    constructor
    · rintro ⟨hin, -⟩
      exact ⟨.inl hin, fun heq => hnew (Option.some.inj heq ▸ hin)⟩
    · rintro ⟨hin | rfl, hne⟩
      · exact ⟨hin, fun heq => by cases heq⟩
      · exact absurd rfl hne
  · intro j
    rw [← hI.joined j]
    exact hperm.mem_iff

/-- The server writes to connection `i`. -/
theorem Inv.write {i : ι} (hI : Inv s) (hctrl : s.server = .write (some i)) (n : Nat) :
    Inv { s with
      server := .close (some i)
      conn := Function.update s.conn i ((s.conn i).send (HELLO.take n)) } := by
  have hin : i ∈ s.accepted := hI.serving i (by rw [hctrl]; rfl)
  have hopen : (s.conn i).shut ≠ true := by
    intro hshut
    refine ((hI.shut i).mp hshut).2 ?_
    rw [hctrl]
    rfl
  have hempty : (s.conn i).sent = [] := hI.unsent i (.inr hctrl)
  have hconn : ∀ j, Function.update s.conn i ((s.conn i).send (HELLO.take n)) j
      = if j = i then (s.conn i).send (HELLO.take n) else s.conn j :=
    fun j => Function.update_apply ..
  refine ⟨hI.once, ?_, ?_, ?_, ?_, hI.joined, ?_, ?_⟩
  · rintro j hj
    cases hj
    exact hin
  · intro j
    show (Function.update s.conn i _ j).sent <+: HELLO
    rw [hconn]
    by_cases hj : j = i
    · rw [if_pos hj, ByteStream.sent_send, hempty]
      exact List.take_prefix _ _
    · rw [if_neg hj]
      exact hI.sent j
  · rintro j (hj | hj)
    · show (Function.update s.conn i _ j).sent = []
      rw [hconn, if_neg fun heq : j = i => hj (heq ▸ hin)]
      exact hI.unsent j (.inl hj)
    · cases hj
  · intro j
    show (Function.update s.conn i _ j).shut = true ↔ j ∈ s.accepted ∧ some i ≠ some j
    have hshut : (Function.update s.conn i ((s.conn i).send (HELLO.take n)) j).shut
        = (s.conn j).shut := by
      rw [hconn]
      by_cases hj : j = i
      · rw [if_pos hj, hj, ByteStream.shut_send]
      · rw [if_neg hj]
    have hold := hI.shut j
    rw [hctrl] at hold
    rw [hshut]
    exact hold
  · intro j
    show text (s.output j) ++ (s.client j).buffer = (Function.update s.conn i _ j).received
    rw [hI.read j, hconn]
    by_cases hj : j = i
    · rw [if_pos hj, hj, ByteStream.received_send]
    · rw [if_neg hj]
  · intro j hend hno
    show (Function.update s.conn i _ j).inflight = [] ∧ (Function.update s.conn i _ j).shut = true
    have heof := hI.eof j hend hno
    rw [hconn, if_neg fun heq : j = i => hopen (heq ▸ heof.2)]
    exact heof

/-- The server closes connection `i` and goes on to `c`, with none. -/
theorem Inv.close {i : ι} {c : ServerCtrl ι} (hI : Inv s) (hserving : s.server.serving = some i)
    (hc : c.serving = none) {listening : Bool} :
    Inv { s with
      server := c, listening := listening
      conn := Function.update s.conn i (s.conn i).close } := by
  have hin : i ∈ s.accepted := hI.serving i hserving
  have hconn : ∀ j, Function.update s.conn i (s.conn i).close j
      = if j = i then (s.conn i).close else s.conn j := fun j => Function.update_apply ..
  -- but for its end, no connection has changed
  have hsent : ∀ j, (Function.update s.conn i (s.conn i).close j).sent = (s.conn j).sent ∧
      (Function.update s.conn i (s.conn i).close j).received = (s.conn j).received ∧
      (Function.update s.conn i (s.conn i).close j).inflight = (s.conn j).inflight := by
    intro j
    rw [hconn]
    by_cases hj : j = i
    · rw [if_pos hj, hj]
      exact ⟨rfl, rfl, rfl⟩
    · rw [if_neg hj]
      exact ⟨rfl, rfl, rfl⟩
  refine ⟨hI.once, ?_, ?_, ?_, ?_, hI.joined, ?_, ?_⟩
  · intro j hj
    cases hc.symm.trans hj
  · intro j
    exact (hsent j).1 ▸ hI.sent j
  · rintro j (hj | rfl)
    · exact (hsent j).1.trans (hI.unsent j (.inl hj))
    · cases hc
  · intro j
    show (Function.update s.conn i _ j).shut = true ↔ j ∈ s.accepted ∧ c.serving ≠ some j
    rw [hconn, hc]
    by_cases hj : j = i
    · rw [if_pos hj, hj]
      exact iff_of_true rfl ⟨hin, fun h => by cases h⟩
    · have hold := hI.shut j
      rw [hserving] at hold
      rw [if_neg hj, hold]
      exact and_congr_right fun _ =>
        iff_of_true (fun heq => hj (Option.some.inj heq).symm) (fun h => by cases h)
  · intro j
    exact (hI.read j).trans (hsent j).2.1.symm
  · intro j hend hno
    show (Function.update s.conn i _ j).inflight = [] ∧ (Function.update s.conn i _ j).shut = true
    obtain ⟨hinflight, hshut⟩ := hI.eof j hend hno
    refine ⟨(hsent j).2.2.trans hinflight, ?_⟩
    rw [hconn]
    by_cases hj : j = i
    · rw [if_pos hj, ByteStream.shut_close]
    · rw [if_neg hj]
      exact hshut

/-- **A step of the server keeps the invariant.** -/
theorem Inv.serverStep {ok : Bool} {n : Nat} (hI : Inv s)
    (h : Greeting.serverStep s ok n = some s') : Inv s' := by
  rw [Greeting.serverStep] at h
  cases hctrl : s.server with
  | socket | bind | listen =>
      simp only [hctrl] at h
      cases h
      exact hI.server_moves (by rw [hctrl]; rfl) (fun i h => by cases h)
  | accept =>
      simp only [hctrl] at h
      split at h
      · split at h
        · cases h
        · cases h
          exact hI.accept hctrl ‹_›
      · cases h
        exact hI.server_moves (by rw [hctrl]; rfl) (fun i h => by cases h)
  | write connfd =>
      cases connfd with
      | none =>
          simp only [hctrl] at h
          cases h
          exact hI.server_moves (by rw [hctrl]; rfl) (fun i h => by cases h)
      | some i =>
          simp only [hctrl] at h
          split at h
          · obtain ⟨-, heq⟩ := Option.ite_none_right_eq_some.mp h
            cases heq
            exact hI.write hctrl n
          · cases h
            exact hI.server_moves (by rw [hctrl]; rfl) (fun j h => by cases h)
  | close connfd =>
      cases connfd with
      | none =>
          simp only [hctrl] at h
          cases h
          exact hI.server_moves (by rw [hctrl]; rfl) (fun i h => by cases h)
      | some i =>
          simp only [hctrl] at h
          cases h
          exact hI.close (by rw [hctrl]; rfl) rfl
  | killed =>
      simp only [hctrl] at h
      cases h

/-- **Every step keeps the invariant.** -/
theorem Inv.step {a : Act ι} (hI : Inv s) (hprints : Prints s a)
    (h : Greeting.step args s a = some s') : Inv s' := by
  cases a with
  | server ok n => exact hI.serverStep h
  | client i ok n => exact hI.clientStep hprints h
  | sigpipe =>
      rw [Greeting.step, Greeting.sigpipe] at h
      split at h
      · obtain ⟨-, heq⟩ := Option.ite_none_right_eq_some.mp h
        cases heq
        exact hI.close (by rw [‹s.server = _›]; rfl) rfl
      · cases h

/-- **NOTHING BUT THE GREETING.**  Whatever fails but `fputs`, what a client has printed of what it
    reads is the beginning of what it has been sent, and that is the beginning of the greeting; one
    that has ended with end-of-file has printed all that it has been sent. -/
theorem greeting_prefix (h : Reach (Greeting.step args) Prints opening s) (i : ι) :
    text (s.output i) <+: (s.conn i).sent ∧ (s.conn i).sent <+: HELLO ∧
    (s.client i = .ended 0 → .message .readError ∉ s.output i →
      text (s.output i) = (s.conn i).sent) := by
  have hI : Inv s := h.invariant .opening fun _ _ _ hI hok hs => hI.step hok hs
  have hread := hI.read i
  refine ⟨?_, hI.sent i, ?_⟩
  · calc text (s.output i)
        <+: text (s.output i) ++ (s.client i).buffer := List.prefix_append _ _
      _ = (s.conn i).received := hread
      _ <+: (s.conn i).sent := List.take_prefix _ _
  · intro hend hno
    rw [hend] at hread
    calc text (s.output i) = text (s.output i) ++ [] := (List.append_nil _).symm
      _ = (s.conn i).received := hread
      _ = (s.conn i).sent := (s.conn i).received_of_inflight_nil (hI.eof i hend hno).1

/-- A server that writes fifteen bytes to one client, and is killed when it writes to another one
    that has gone. -/
def killed : List (Act Bool) :=
  [.server true 0, .server true 0, .server true 0,
    .client true true 0, .client true true 0, .client true true 0, .client true true 0,
    .client false true 0, .client false true 0, .client false true 0, .client false true 0,
    .server true 0, .server true 15, .client true true 10, .client true true 0, .server true 0,
    .client false false 0, .server true 0, .sigpipe]

/-- The theorem for the first of these clients, which has read ten bytes. -/
theorem greeting_prefix_ten : ∃ s : State Bool,
    Reach (Greeting.step fun _ => ⟨2, true⟩) Prints opening s ∧ s.server = .killed ∧
    s.output true = [.text (HELLO.take 10)] ∧ HELLO.take 10 <+: (s.conn true).sent ∧
    (s.conn true).sent <+: HELLO := by
  obtain ⟨s, hs, hf⟩ := reach_of_runWhen_map (Greeting.step fun _ : Bool => ⟨2, true⟩) Prints
    opening killed (fun s => (s.server, s.output true))
    (show _ = some (.killed, [.text (HELLO.take 10)]) by decide +kernel)
  simp only [Prod.mk.injEq] at hf
  obtain ⟨hctrl, hout⟩ := hf
  obtain ⟨htext, hsent, -⟩ := greeting_prefix hs true
  rw [hout] at htext
  exact ⟨s, hs, hctrl, hout, htext, hsent⟩

end Greeting
