import Mathlib.Data.Fintype.Basic
import LinuxPrograming.StreamServerProofs
import LinuxPrograming.CmnBaseProofs

/-!
# The stream client, and what arrives at the server (`6-Socket/task3/client.c`)

Any number of clients run against the server.  A client is meant to copy its standard input to the
socket, but `exit(EXIT_SUCCESS)` stands inside its copy loop: after the first chunk has been
written the process is gone.

* **`Stdin`** — the input is given as the chunks that successive `read`s return, so quantifying
  over it quantifies over the contents and over every way of cutting them.
* **`SystemInv`** — whatever the interleaving, a client sends its first chunk and nothing else.
* **`copies_whole_stdin_iff`** — every run can be completed, and when it is, the server has written
  the whole input of a client exactly if the first `read` returned all of it.
-/

namespace StreamUnix

open Transition CmnBase

/-! ## The client -/

/-- The contents of a standard input, cut into what the `read`s return. -/
structure Stdin where
  chunks : List (List UInt8)
  cut    : ∀ c ∈ chunks, c ≠ [] ∧ c.length ≤ BUF_SIZE

/-- The whole input. -/
def Stdin.content (i : Stdin) : List UInt8 := i.chunks.flatten

/-- What the first `read` returns. -/
def Stdin.first (i : Stdin) : List UInt8 := i.chunks.head?.getD []

/-- Where a client is: before the system call that its control point names. -/
inductive ClientCtrl where
  | socket
  | connect
  | read
  | write (buf : List UInt8)
  | exit (status : Nat)
  | gone (status : Nat)

/-- The server, and for each client its control point and what it has not read yet. -/
structure System (ι : Type) where
  site   : Site ι
  client : ι → ClientCtrl
  unread : ι → List (List UInt8)

variable {ι : Type} [DecidableEq ι]

/-- Client `p` goes on to `c`. -/
def System.goto (s : System ι) (p : ι) (c : ClientCtrl) : System ι :=
  { s with client := Function.update s.client p c }

/-- The next system call of client `p` returns `ret`. -/
def clientStep (s : System ι) (p : ι) (ret : Int) : Option (System ι) :=
  match s.client p with
  | .socket  => some (s.goto p (if ret = -1 then .exit EXIT_FAILURE else .connect))
  | .connect =>
      if ret = -1 then some (s.goto p (.exit EXIT_FAILURE))
      else (peerStep s.site p .connect).map fun site => { s with site }.goto p .read
  | .read =>
      -- an error and end-of-file both end the loop, and with it `main`
      if ret = -1 then some (s.goto p (.exit EXIT_SUCCESS))
      else match s.unread p with
        | [] => if ret = 0 then some (s.goto p (.exit EXIT_SUCCESS)) else none
        | chunk :: rest =>
            if ret = chunk.length then
              some ({ s with unread := Function.update s.unread p rest }.goto p (.write chunk))
            else none
  | .write buf =>
      -- the test of `numRead == -1` that follows is dead: the loop condition was `numRead > 0`
      if -1 ≤ ret ∧ ret ≤ buf.length then
        (peerStep s.site p (.send (buf.take ret.toNat))).map fun site =>
          { s with site }.goto p (.exit (if ret ≠ buf.length then EXIT_FAILURE else EXIT_SUCCESS))
      else none
  | .exit status =>
      if s.site.connected p then
        (peerStep s.site p .shut).map fun site => { s with site }.goto p (.gone status)
      else some (s.goto p (.gone status))
  | .gone _ => none

/-- Who makes the next system call, and what it returns. -/
inductive Act (ι : Type) where
  | server (ret : Int) (errno : Errno)
  | client (p : ι) (ret : Int)

/-- One system call of the server or of a client. -/
def step (s : System ι) : Act ι → Option (System ι)
  | .server ret errno => (serverStep s.site ret errno).map fun site => { s with site }
  | .client p ret     => clientStep s p ret

/-- Nobody has done anything yet. -/
def opening (stdin : ι → Stdin) : System ι :=
  ⟨.opening, fun _ => .socket, fun p => (stdin p).chunks⟩

/-- The call of a client succeeds; a short write counts as a failure, as in the code. -/
def ClientCtrl.Succeeds (ret : Int) : ClientCtrl → Prop
  | .write buf => ret = buf.length
  | _          => ret ≠ -1

/-- The system call of the step succeeds. -/
def Succeeds (s : System ι) : Act ι → Prop
  | .server ret errno => s.site.server.Succeeds ret errno
  | .client p ret     => (s.client p).Succeeds ret

/-! ## What a client has sent -/

/-- What a client at `c` still has to send. -/
def ClientCtrl.toSend (i : Stdin) : ClientCtrl → List UInt8
  | .socket | .connect | .read => i.first
  | .write buf => buf
  | .exit _ | .gone _ => []

/-- How a client at a control point stands to its connection. -/
def ClientCtrl.Stage (i : Stdin) (connected : Prop) (conn : ByteStream UInt8)
    (unread : List (List UInt8)) : ClientCtrl → Prop
  | .socket | .connect => ¬ connected ∧ unread = i.chunks
  | .read      => connected ∧ conn.shut = false ∧ conn.sent = [] ∧ unread = i.chunks
  | .write buf => connected ∧ conn.shut = false ∧ conn.sent = [] ∧ buf = i.first
  | .exit _    => connected ∧ conn.sent = i.first
  | .gone _    => connected ∧ conn.shut = true ∧ conn.sent = i.first

/-- The stage depends on what the client itself does to its connection. -/
theorem ClientCtrl.Stage.congr {i : Stdin} {connected connected' : Prop}
    {conn conn' : ByteStream UInt8} {unread : List (List UInt8)} {c : ClientCtrl}
    (h : c.Stage i connected conn unread) (hconn : connected' ↔ connected)
    (hsent : conn'.sent = conn.sent) (hshut : conn'.shut = conn.shut) :
    c.Stage i connected' conn' unread := by
  cases c <;> simpa [ClientCtrl.Stage, hconn, hsent, hshut] using h

/-- **The invariant of the system.** -/
structure SystemInv (stdin : ι → Stdin) (s : System ι) : Prop where
  site  : SiteInv s.site
  stage : ∀ p, (s.client p).Stage (stdin p) (s.site.connected p) (s.site.conn p) (s.unread p)

/-- Only client `p` has moved. -/
theorem SystemInv.client {stdin : ι → Stdin} {s : System ι} {site : Site ι} {p : ι}
    {c : ClientCtrl} {rest : List (List UInt8)} (hI : SystemInv stdin s) (hsite : SiteInv site)
    (hothers : ∀ q, q ≠ p → (site.connected q ↔ s.site.connected q) ∧ site.conn q = s.site.conn q)
    (hstage : c.Stage (stdin p) (site.connected p) (site.conn p) rest) :
    SystemInv stdin ⟨site, Function.update s.client p c, Function.update s.unread p rest⟩ := by
  refine ⟨hsite, ?_⟩
  intro q
  by_cases hq : q = p
  · subst hq
    simpa using hstage
  · obtain ⟨hconn, heq⟩ := hothers q hq
    simp only [Function.update_of_ne hq]
    exact (hI.stage q).congr hconn (by rw [heq]) (by rw [heq])

/-- A successful step of client `p`. -/
inductive ClientMove (s : System ι) (p : ι) : System ι → Prop where
  | socket : s.client p = .socket → ClientMove s p (s.goto p .connect)
  | connect (site : Site ι) : s.client p = .connect → peerStep s.site p .connect = some site →
      ClientMove s p ({ s with site }.goto p .read)
  | read (chunk : List UInt8) (rest : List (List UInt8)) : s.client p = .read →
      s.unread p = chunk :: rest →
      ClientMove s p ({ s with unread := Function.update s.unread p rest }.goto p (.write chunk))
  | eof : s.client p = .read → s.unread p = [] → ClientMove s p (s.goto p (.exit EXIT_SUCCESS))
  | write (buf : List UInt8) (site : Site ι) : s.client p = .write buf →
      peerStep s.site p (.send buf) = some site →
      ClientMove s p ({ s with site }.goto p (.exit EXIT_SUCCESS))
  | exit (status : Nat) (site : Site ι) : s.client p = .exit status → s.site.connected p →
      peerStep s.site p .shut = some site →
      ClientMove s p ({ s with site }.goto p (.gone status))
  | leave (status : Nat) : s.client p = .exit status → ¬ s.site.connected p →
      ClientMove s p (s.goto p (.gone status))

/-- **What a successful step of a client does.** -/
theorem clientMove_of_step {s s' : System ι} {p : ι} {ret : Int}
    (h : clientStep s p ret = some s') (hok : (s.client p).Succeeds ret) : ClientMove s p s' := by
  rw [clientStep] at h
  cases hc : s.client p with
  | socket =>
      rw [hc] at h hok
      simp only [show ret ≠ -1 from hok, if_false, Option.some.injEq] at h
      subst h
      exact .socket hc
  | connect =>
      rw [hc] at h hok
      simp only [show ret ≠ -1 from hok, if_false] at h
      obtain ⟨site, hsite, rfl⟩ := Option.map_eq_some_iff.mp h
      exact .connect site hc hsite
  | read =>
      rw [hc] at h hok
      simp only [show ret ≠ -1 from hok, if_false] at h
      cases hu : s.unread p with
      | nil =>
          rw [hu] at h
          obtain ⟨-, heq⟩ := Option.ite_none_right_eq_some.mp h
          cases heq
          exact .eof hc hu
      | cons chunk rest =>
          rw [hu] at h
          obtain ⟨-, heq⟩ := Option.ite_none_right_eq_some.mp h
          cases heq
          exact .read chunk rest hc hu
  | write buf =>
      rw [hc] at h hok
      obtain ⟨-, h⟩ := Option.ite_none_right_eq_some.mp h
      obtain ⟨site, hsite, rfl⟩ := Option.map_eq_some_iff.mp h
      have hret : ret = buf.length := hok
      subst hret
      rw [Int.toNat_natCast, List.take_length] at hsite
      rw [if_neg (not_not_intro rfl)]
      exact .write buf site hc hsite
  | exit status =>
      rw [hc] at h
      by_cases hconn : s.site.connected p
      · simp only [if_pos hconn] at h
        obtain ⟨site, hsite, rfl⟩ := Option.map_eq_some_iff.mp h
        exact .exit status site hc hconn hsite
      · simp only [if_neg hconn, Option.some.injEq] at h
        subst h
        exact .leave status hc hconn
  | gone status => rw [hc] at h; cases h

/-- **A successful step of a client keeps the invariant.** -/
theorem SystemInv.move {stdin : ι → Stdin} {s s' : System ι} {p : ι} (hI : SystemInv stdin s)
    (h : ClientMove s p s') : SystemInv stdin s' := by
  have hst := hI.stage p
  have hstay : s.unread = Function.update s.unread p (s.unread p) := by simp
  cases h with
  | socket hc =>
      rw [hc] at hst
      rw [System.goto, hstay]
      exact hI.client hI.site (fun _ _ => ⟨Iff.rfl, rfl⟩) hst
  | connect site hc hsite =>
      rw [hc] at hst
      obtain ⟨hno, hunread⟩ := hst
      rw [System.goto, hstay]
      refine hI.client (hI.site.peer hsite) (fun q hq => peerStep_frame hsite hq) ?_
      -- a client that has not connected has sent nothing
      have hfresh := hI.site.silent p hno
      obtain ⟨-, heq⟩ := Option.ite_none_right_eq_some.mp hsite
      cases heq
      refine ⟨Or.inl (List.mem_append_right _ (List.mem_singleton_self p)), ?_, ?_, hunread⟩
      · exact congrArg ByteStream.shut hfresh
      · exact congrArg ByteStream.sent hfresh
  | read chunk rest hc hu =>
      rw [hc] at hst
      obtain ⟨hconn, hshut, hsent, hunread⟩ := hst
      refine hI.client hI.site (fun _ _ => ⟨Iff.rfl, rfl⟩) ⟨hconn, hshut, hsent, ?_⟩
      rw [Stdin.first, ← hunread, hu]
      rfl
  | eof hc hu =>
      rw [hc] at hst
      obtain ⟨hconn, -, hsent, hunread⟩ := hst
      rw [System.goto, hstay]
      refine hI.client hI.site (fun _ _ => ⟨Iff.rfl, rfl⟩) ⟨hconn, ?_⟩
      rw [hsent, Stdin.first, ← hunread, hu]
      rfl
  | write buf site hc hsite =>
      rw [hc] at hst
      obtain ⟨hconn, hshut, hsent, hbuf⟩ := hst
      rw [System.goto, hstay]
      refine hI.client (hI.site.peer hsite) (fun q hq => peerStep_frame hsite hq) ?_
      obtain ⟨-, heq⟩ := Option.ite_none_right_eq_some.mp hsite
      cases heq
      refine ⟨hconn, ?_⟩
      simp [hsent, hbuf]
  | exit status site hc _ hsite =>
      rw [hc] at hst
      obtain ⟨hconn, hsent⟩ := hst
      rw [System.goto, hstay]
      refine hI.client (hI.site.peer hsite) (fun q hq => peerStep_frame hsite hq) ?_
      obtain ⟨-, heq⟩ := Option.ite_none_right_eq_some.mp hsite
      cases heq
      refine ⟨hconn, ?_, ?_⟩
      · simp
      · simp [hsent]
  | leave status hc hno =>
      rw [hc] at hst
      exact absurd hst.1 hno

/-- **A successful step of the server keeps the invariant.** -/
theorem SystemInv.served {stdin : ι → Stdin} {s : System ι} {site : Site ι}
    (hI : SystemInv stdin s) (h : Served s.site site) : SystemInv stdin { s with site } := by
  refine ⟨hI.site.served h, ?_⟩
  intro p
  obtain ⟨hconn, hsent, hshut⟩ := h.frame p
  exact (hI.stage p).congr hconn hsent hshut

/-- A successful step is one of the server or one of a client. -/
theorem step_cases {s s' : System ι} {a : Act ι} (h : step s a = some s') (hok : Succeeds s a) :
    (∃ site, Served s.site site ∧ s' = { s with site }) ∨ ∃ p, ClientMove s p s' := by
  cases a with
  | server ret errno =>
      obtain ⟨site, hsite, rfl⟩ := Option.map_eq_some_iff.mp h
      exact Or.inl ⟨site, served_of_step hsite hok, rfl⟩
  | client p ret => exact Or.inr ⟨p, clientMove_of_step h hok⟩

theorem SystemInv.step {stdin : ι → Stdin} {s s' : System ι} {a : Act ι} (hI : SystemInv stdin s)
    (h : step s a = some s') (hok : Succeeds s a) : SystemInv stdin s' := by
  rcases step_cases h hok with ⟨site, hserved, rfl⟩ | ⟨p, hmove⟩
  · exact hI.served hserved
  · exact hI.move hmove

theorem SystemInv.opening (stdin : ι → Stdin) : SystemInv stdin (opening stdin) where
  site  := SiteInv.opening
  stage := fun _ => ⟨fun h => h.elim (fun h => by cases h) (fun h => by cases h), rfl⟩

/-- **The invariant holds in every state reached without a failing call.** -/
theorem systemInv_reach {stdin : ι → Stdin} {s : System ι}
    (h : Reach step Succeeds (opening stdin) s) : SystemInv stdin s :=
  h.invariant (SystemInv.opening stdin) fun _ _ _ hI hok hs => hI.step hs hok

/-! ## Every run comes to an end -/

/-- The calls a client still makes. -/
def ClientCtrl.weight : ClientCtrl → Nat
  | .socket  => 5
  | .connect => 4
  | .read    => 3
  | .write _ => 2
  | .exit _  => 1
  | .gone _  => 0

/-- What the server spends on a connection besides its bytes: accept, end-of-file and close. -/
def fare (accepted : List ι) (p : ι) : Nat := if p ∈ accepted then 0 else 3

/-- What client `p` and its connection still have ahead of them: two calls of the server for each
    byte, and the fare of the connection. -/
def System.ahead (stdin : ι → Stdin) (s : System ι) (p : ι) : Nat :=
  (s.client p).weight + 2 * ((s.client p).toSend (stdin p)).length
    + 2 * (s.site.conn p).inflight.length + fare s.site.accepted p

/-- What the whole system has ahead of it. -/
def System.measure [Fintype ι] (stdin : ι → Stdin) (s : System ι) : Nat :=
  Finset.univ.sum (s.ahead stdin) + s.site.server.weight

/-- A step that changes the prospects of `p` only, and lowers them by more than it costs. -/
theorem measure_lt [Fintype ι] {stdin : ι → Stdin} {s s' : System ι} (p : ι)
    (hothers : ∀ q, q ≠ p → s'.ahead stdin q = s.ahead stdin q)
    (hless : s'.ahead stdin p + s'.site.server.weight < s.ahead stdin p + s.site.server.weight) :
    s'.measure stdin < s.measure stdin := by
  have hsum := sum_replace p hothers
  simp only [System.measure]
  omega

/-- **A successful step of a client brings the end nearer.** -/
theorem ClientMove.lowers [Fintype ι] {stdin : ι → Stdin} {s s' : System ι} {p : ι}
    (hI : SystemInv stdin s) (h : ClientMove s p s') : s'.measure stdin < s.measure stdin := by
  have hst := hI.stage p
  cases h with
  | socket hc =>
      refine measure_lt p ?_ ?_
      · intro q hq
        simp [System.ahead, System.goto, hq]
      · simp [System.ahead, System.goto, hc, ClientCtrl.weight, ClientCtrl.toSend]
  | connect site hc hsite =>
      obtain ⟨-, heq⟩ := Option.ite_none_right_eq_some.mp hsite
      cases heq
      refine measure_lt p ?_ ?_
      · intro q hq
        simp [System.ahead, System.goto, hq]
      · simp [System.ahead, System.goto, hc, ClientCtrl.weight, ClientCtrl.toSend]
  | read chunk rest hc hu =>
      rw [hc] at hst
      have hfirst : (stdin p).first = chunk := by
        rw [Stdin.first, ← hst.2.2.2, hu]
        rfl
      refine measure_lt p ?_ ?_
      · intro q hq
        simp [System.ahead, System.goto, hq]
      · simp [System.ahead, System.goto, hc, ClientCtrl.weight, ClientCtrl.toSend, hfirst]
  | eof hc hu =>
      refine measure_lt p ?_ ?_
      · intro q hq
        simp [System.ahead, System.goto, hq]
      · simp only [System.ahead, System.goto, hc, ClientCtrl.weight, ClientCtrl.toSend,
          Function.update_self, List.length_nil]
        omega
  | write buf site hc hsite =>
      obtain ⟨-, heq⟩ := Option.ite_none_right_eq_some.mp hsite
      cases heq
      refine measure_lt p ?_ ?_
      · intro q hq
        simp [System.ahead, System.goto, hq]
      · simp only [System.ahead, System.goto, hc, ClientCtrl.weight, ClientCtrl.toSend,
          Function.update_self, List.length_nil, ByteStream.inflight_send, List.length_append]
        omega
  | exit status site hc _ hsite =>
      obtain ⟨-, heq⟩ := Option.ite_none_right_eq_some.mp hsite
      cases heq
      refine measure_lt p ?_ ?_
      · intro q hq
        simp [System.ahead, System.goto, hq]
      · simp [System.ahead, System.goto, hc, ClientCtrl.weight, ClientCtrl.toSend]
  | leave status hc _ =>
      refine measure_lt p ?_ ?_
      · intro q hq
        simp [System.ahead, System.goto, hq]
      · simp [System.ahead, System.goto, hc, ClientCtrl.weight, ClientCtrl.toSend]

/-- **A successful step of the server brings the end nearer.** -/
theorem served_lowers [Fintype ι] {stdin : ι → Stdin} {s : System ι} {site : Site ι}
    (hI : SystemInv stdin s) (h : Served s.site site) :
    ({ s with site } : System ι).measure stdin < s.measure stdin := by
  cases h with
  | setup c _ _ _ _ hless => exact Nat.add_lt_add_left hless _
  | accept p rest hs hp =>
      -- an accepted connection has left the pending ones, so its fare is paid once
      have hnew : p ∉ s.site.accepted := by
        have honce := hI.site.once
        rw [hp] at honce
        intro hmem
        exact (List.disjoint_of_nodup_append honce) hmem (List.mem_cons_self ..)
      refine measure_lt p ?_ ?_
      · intro q hq
        simp [System.ahead, fare, hq]
      · have hpaid : fare (s.site.accepted ++ [p]) p = 0 := if_pos (by simp)
        have hdue : fare s.site.accepted p = 3 := if_neg hnew
        simp only [System.ahead, hpaid, hdue, hs, ServerCtrl.weight]
        omega
  | read cfd n hs hpos hn =>
      refine measure_lt cfd ?_ ?_
      · intro q hq
        simp [System.ahead, hq]
      · simp only [System.ahead, Function.update_self, ByteStream.inflight_receive,
          List.length_drop, hs, ServerCtrl.weight]
        omega
  | eof cfd hs _ _ =>
      refine Nat.add_lt_add_left ?_ _
      show (ServerCtrl.close cfd).weight < s.site.server.weight
      rw [hs]
      exact Nat.lt_succ_self _
  | write cfd buf hs =>
      refine Nat.add_lt_add_left ?_ _
      show (ServerCtrl.read cfd).weight < s.site.server.weight
      rw [hs]
      exact Nat.lt_succ_self _
  | close cfd hs =>
      refine Nat.add_lt_add_left ?_ _
      show (ServerCtrl.accept : ServerCtrl ι).weight < s.site.server.weight
      rw [hs]
      exact Nat.lt_succ_self _

/-- **Every run without a failing call can be completed**, and none goes on for ever. -/
theorem run_completes [Fintype ι] {stdin : ι → Stdin} {s : System ι} (hI : SystemInv stdin s) :
    ∃ s', Reach step Succeeds s s' ∧ Stuck step Succeeds s' := by
  refine Reach.exhausts (SystemInv stdin) (System.measure stdin)
    (fun _ _ _ hI hok hs => hI.step hs hok) (fun s a s' hI hok hs => ?_) hI
  rcases step_cases hs hok with ⟨site, hserved, rfl⟩ | ⟨p, hmove⟩
  · exact served_lowers hI hserved
  · exact hmove.lowers hI

/-! ## What a completed run has written -/

/-- A server that is neither waiting for a connection nor for input can go on. -/
theorem server_stuck {stdin : ι → Stdin} {s : System ι} (hI : SystemInv stdin s)
    (hgone : ∀ p, s.site.connected p → (s.site.conn p).shut = true)
    (hstuck : Stuck step Succeeds s) : s.site.server = .accept ∧ s.site.pending = [] := by
  -- a call that returns `ret` and succeeds would be a step
  have hblocked : ∀ ret : Int, s.site.server.Succeeds ret .other →
      serverStep s.site ret .other = none := fun ret hok =>
    Option.map_eq_none_iff.mp (hstuck (.server ret .other) hok)
  cases hc : s.site.server with
  | socket | remove | bind | listen | close =>
      have hno := hblocked 0 (by rw [hc]; simp [ServerCtrl.Succeeds])
      rw [serverStep, hc] at hno
      cases hno
  | accept =>
      refine ⟨rfl, ?_⟩
      have hno := hblocked 0 (by rw [hc]; simp [ServerCtrl.Succeeds])
      rw [serverStep, hc] at hno
      cases hp : s.site.pending with
      | nil => rfl
      | cons p rest => simp [hp] at hno
  | read cfd =>
      have hcfd : s.site.connected cfd := Or.inr (hI.site.serving cfd (by rw [hc]; rfl))
      by_cases hin : (s.site.conn cfd).inflight = []
      · have hno := hblocked 0 (by rw [hc]; simp [ServerCtrl.Succeeds])
        simp [serverStep, hc, hin, hgone cfd hcfd] at hno
      · have hlen : 0 < (s.site.conn cfd).inflight.length := List.length_pos_of_ne_nil hin
        have hno := hblocked 1 (by rw [hc]; simp [ServerCtrl.Succeeds])
        rw [serverStep, hc] at hno
        simp only [Int.reduceToNat, show (0 : Int) < 1 by decide, if_true] at hno
        rw [if_pos ⟨by decide, hlen⟩] at hno
        cases hno
  | write cfd buf =>
      have hno := hblocked buf.length (by rw [hc]; rfl)
      rw [serverStep, hc] at hno
      simp only at hno
      rw [if_pos (by omega)] at hno
      cases hno
  | exit => exact absurd hc hI.site.running

/-- A client that can make no successful call has gone. -/
theorem client_stuck {stdin : ι → Stdin} {s : System ι} (hI : SystemInv stdin s)
    (hstuck : Stuck step Succeeds s) (hlisten : s.site.server.listening = true) (p : ι) :
    ∃ status, s.client p = .gone status := by
  have hblocked : ∀ ret : Int, (s.client p).Succeeds ret → clientStep s p ret = none :=
    fun ret hok => hstuck (.client p ret) hok
  -- at each point but the last there is a successful outcome that the client could take
  have hst := hI.stage p
  cases hc : s.client p with
  | socket =>
      have hno := hblocked 0 (by rw [hc]; simp [ClientCtrl.Succeeds])
      simp [clientStep, hc] at hno
  | connect =>
      rw [hc] at hst
      have hno := hblocked 0 (by rw [hc]; simp [ClientCtrl.Succeeds])
      simp [clientStep, hc, peerStep, hlisten, hst.1] at hno
  | read =>
      cases hu : s.unread p with
      | nil =>
          have hno := hblocked 0 (by rw [hc]; simp [ClientCtrl.Succeeds])
          simp [clientStep, hc, hu] at hno
      | cons chunk rest =>
          have hret : (chunk.length : Int) ≠ -1 := by omega
          have hno := hblocked chunk.length (by rw [hc]; exact hret)
          simp [clientStep, hc, hu, hret] at hno
  | write buf =>
      rw [hc] at hst
      have hno := hblocked buf.length (by rw [hc]; rfl)
      have hrange : (-1 : Int) ≤ buf.length ∧ (buf.length : Int) ≤ buf.length := by omega
      rw [clientStep, hc] at hno
      simp [hrange.1, peerStep, hst.1, hst.2.1] at hno
  | exit status =>
      rw [hc] at hst
      have hno := hblocked 0 (by rw [hc]; simp [ClientCtrl.Succeeds])
      simp [clientStep, hc, peerStep, hst.1] at hno
  | gone status => exact ⟨status, rfl⟩

/-- Before it serves, the server's setup calls are all it has to make. -/
theorem setup_not_stuck {s : System ι} (hrun : s.site.server ≠ .exit)
    (hstuck : Stuck step Succeeds s) : s.site.server.listening = true := by
  cases hc : s.site.server with
  | socket | remove | bind | listen =>
      have hno : serverStep s.site 0 .other = none := Option.map_eq_none_iff.mp
        (hstuck (.server 0 .other) (by simp [Succeeds, hc, ServerCtrl.Succeeds]))
      rw [serverStep, hc] at hno
      cases hno
  | exit => exact absurd hc hrun
  | accept | read _ | write _ _ | close _ => rfl

/-- **When nothing more can happen, the server has written the first chunk of every client.** -/
theorem written_of_stuck {stdin : ι → Stdin} {s : System ι} (hI : SystemInv stdin s)
    (hstuck : Stuck step Succeeds s) (p : ι) : s.site.writtenFor p = (stdin p).first := by
  have hlisten := setup_not_stuck hI.site.running hstuck
  have hend : ∀ q, s.site.connected q ∧ (s.site.conn q).shut = true ∧
      (s.site.conn q).sent = (stdin q).first := by
    intro q
    obtain ⟨status, hq⟩ := client_stuck hI hstuck hlisten q
    have hst := hI.stage q
    rw [hq] at hst
    exact hst
  -- with all clients gone the server waits in `accept`, with nothing pending
  obtain ⟨haccept, hpend⟩ := server_stuck hI (fun q _ => (hend q).2.1) hstuck
  have hacc : p ∈ s.site.accepted := by
    rcases (hend p).1 with hp | hp
    · rw [hpend] at hp
      cases hp
    · exact hp
  have hcopied := hI.site.copied p
  rw [haccept] at hcopied
  have hin : (s.site.conn p).inflight = [] :=
    (hI.site.done p hacc (by rw [haccept]; exact fun h => by cases h)).1
  calc s.site.writtenFor p
      = s.site.writtenFor p ++ [] := (List.append_nil _).symm
    _ = (s.site.conn p).received := hcopied
    _ = (s.site.conn p).sent := ByteStream.received_of_inflight_nil _ hin
    _ = (stdin p).first := (hend p).2.2

/-- The first chunk is the whole input exactly if there is no second one. -/
theorem Stdin.first_eq_content_iff (i : Stdin) : i.first = i.content ↔ i.chunks.length ≤ 1 := by
  unfold Stdin.first Stdin.content
  cases hc : i.chunks with
  | nil => simp
  | cons c rest =>
      cases rest with
      | nil => simp
      | cons d rest =>
          have hd : d ≠ [] := (i.cut d (by simp [hc])).1
          simp [hd]

/-- **ONLY THE FIRST CHUNK ARRIVES.**  Any number of clients, any input cut in any way, any sizes of
    the server's reads: as long as no call fails, the run can be completed, and once it is, the
    server has written all of a client's input exactly if at most one `read` was needed for it. -/
theorem copies_whole_stdin_iff [Fintype ι] {stdin : ι → Stdin} {s : System ι}
    (h : Reach step Succeeds (opening stdin) s) :
    (∃ s', Reach step Succeeds s s' ∧ Stuck step Succeeds s') ∧
    (Stuck step Succeeds s →
      ∀ p, s.site.writtenFor p = (stdin p).content ↔ (stdin p).chunks.length ≤ 1) := by
  have hI := systemInv_reach h
  refine ⟨run_completes hI, ?_⟩
  intro hstuck p
  rw [written_of_stuck hI hstuck p]
  exact (stdin p).first_eq_content_iff

/-- Two bytes, read at once. -/
def greeting : Stdin where
  chunks := [[104, 105]]
  cut := by decide

/-- The theorem for one client with a short input. -/
theorem greeting_arrives : ∃ s : System Unit, Reach step Succeeds (opening fun _ => greeting) s ∧
    s.site.writtenFor () = [104, 105] := by
  have hinit : Reach step Succeeds (opening fun _ : Unit => greeting) _ := .init
  obtain ⟨s, hs, hstuck⟩ := (copies_whole_stdin_iff hinit).1
  exact ⟨s, hs, ((copies_whole_stdin_iff hs).2 hstuck ()).mpr (Nat.le_refl 1)⟩

/-- 101 bytes, read as a full buffer and one more byte. -/
def overlong : Stdin where
  chunks := [List.replicate BUF_SIZE 97, [98]]
  cut := by decide

/-- **The rest of a longer input is lost.** -/
theorem rest_of_stdin_lost :
    ¬ ∀ (stdin : Unit → Stdin) (s : System Unit), Reach step Succeeds (opening stdin) s →
      Stuck step Succeeds s → ∀ p, s.site.writtenFor p = (stdin p).content := by
  intro hall
  obtain ⟨s, hs, hstuck⟩ := run_completes (SystemInv.opening fun _ : Unit => overlong)
  have hwritten := written_of_stuck (systemInv_reach hs) hstuck ()
  rw [hall _ s hs hstuck ()] at hwritten
  have hone := overlong.first_eq_content_iff.mp hwritten.symm
  exact absurd hone (by decide)

end StreamUnix
