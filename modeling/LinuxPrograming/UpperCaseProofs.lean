import LinuxPrograming.TransitionProofs
import LinuxPrograming.DatagramProofs
import LinuxPrograming.DispatcherProofs
import LinuxPrograming.InPlaceProofs

/-!
# The upper-case servers over datagrams (`6-Socket/task2/`, `6-Socket/task4/`)

A server answers each datagram with its upper-case form.  A client sends its messages one by one
and takes whatever arrives after each for the response, without looking at who sent it.

* **`Inv`** — of each client at most one datagram is on its way, to the server, in it, or back, and
  it belongs to the message that the client waits for.
* **`log_eq_take`**, **`response_eq`** — so the responses logged are those to the client's own
  messages, in order.
-/

namespace UpperCase

open Transition Datagram CmnBase InPlace
open TaskQueue (CString)

/-! ## The programs -/

def BUF_SIZE : Nat := 10

/-- `toupper`, in the locale `"C"`. -/
def toupper (c : UInt8) : UInt8 := if 97 ≤ c ∧ c ≤ 122 then c - 32 else c

/-- The two versions of the programs. -/
inductive Version where
  | task2
  | task4
deriving DecidableEq

/-- The index in `argv` of the first message; the client of `task2` is also told the host. -/
def Version.firstMsg : Version → Nat
  | .task2 => 2
  | .task4 => 1

/-- The number logged with the response to `argv[j]`. -/
def Version.number : Version → Nat → Nat
  | .task2, j => j - 1
  | .task4, j => j

/-- The bytes of `"--help"`. -/
def helpOption : List UInt8 := [45, 45, 104, 101, 108, 112]

/-- The addresses: the clients have different ones, and none has that of the server. -/
structure Addresses (ι α : Type) where
  svaddr    : α
  claddr    : ι → α
  injective : ∀ {c c'}, claddr c = claddr c' → c = c'
  ne_svaddr : ∀ c, claddr c ≠ svaddr

/-- What `recvfrom(…, buf, BUF_SIZE, …)` takes of a datagram. -/
def received (data : List UInt8) : List UInt8 := data.take BUF_SIZE

/-- The buffer after that call. -/
def store (buf data : List UInt8) : List UInt8 :=
  received data ++ buf.drop (received data).length

/-- What the conversion `%.*s` prints, with precision `n`. -/
def printed (buf : List UInt8) (n : Nat) : List UInt8 := (buf.take n).takeWhile fun c => c ≠ 0

/-- Where a client is: before the call that its control point names; `address` stands for the calls
    that set up the address, `inet_pton` of `task2` and `bind` of `task4`. -/
inductive ClientCtrl where
  | usage
  | socket
  | address
  | sendto (j : Nat)
  | recvfrom (j : Nat)
  | log (j numBytes : Nat)
  | ended (status : Nat)
deriving DecidableEq

/-- A client, with the responses that it has logged and what it says when it gives up. -/
structure Client where
  ctrl  : ClientCtrl
  resp  : List UInt8
  log   : List (Nat × List UInt8)
  error : Option String

/-- Where the server is; `convert` is the test of the inner loop. -/
inductive ServerCtrl where
  | socket
  | remove
  | bind
  | recvfrom
  | convert (j numBytes : Nat)
  | sendto (numBytes : Nat)
  | ended (status : Nat)
deriving DecidableEq

structure Server (α : Type) where
  ctrl   : ServerCtrl
  buf    : List UInt8
  claddr : α
  error  : Option String

/-- What the client says when it gives up. -/
def Version.clientError : Version → ClientCtrl → String
  | .task2, .usage => "Usage: %s host-address msg...\n"
  | .task4, .usage => "Usage: %s msg..."
  | _, .socket => "socket"
  | .task2, .address => "inet_pton failed for address '%s'"
  | .task4, .address => "bind"
  | _, .sendto _ => "sendto"
  | _, .recvfrom _ => "recvfrom"
  | _, .log _ _ | _, .ended _ => ""

/-- What the server says when it gives up. -/
def Version.serverError : Version → ServerCtrl → String
  | _, .socket => "socket\n"
  | _, .remove => "remove\n"
  | .task2, .bind => "bind"
  | .task4, .bind => "sockbindet\n"
  | .task2, .recvfrom => "recvfrom"
  | .task4, .recvfrom => "recvfrom\n"
  | .task2, .sendto _ => "sendto"
  | .task4, .sendto _ => "sendto\n"
  | _, .convert _ _ | _, .ended _ => ""

variable {ι α : Type}

def Client.fail (v : Version) (c : Client) : Client :=
  { c with ctrl := .ended EXIT_FAILURE, error := some (v.clientError c.ctrl) }

def Server.fail (v : Version) (s : Server α) : Server α :=
  { s with ctrl := .ended EXIT_FAILURE, error := some (v.serverError s.ctrl) }

/-- `main` of the client with the address `self`; its next call succeeds or not. -/
def clientStep [DecidableEq α] (v : Version) (svaddr self : α) (argv : List CString)
    (net : Network α (List UInt8)) (c : Client) (ok : Bool) :
    Option (Network α (List UInt8) × Client) :=
  match c.ctrl with
  | .usage =>
      if argv.length < v.firstMsg + 1 ∨ argv[1]?.map CString.bytes = some helpOption then
        some (net, c.fail v)
      else some (net, { c with ctrl := .socket })
  | .socket => some (net, if ok then { c with ctrl := .address } else c.fail v)
  | .address =>
      some (net, if ok then { c with ctrl := .sendto v.firstMsg } else c.fail v)
  | .sendto j =>
      match argv[j]? with
      | none => some (net, { c with ctrl := .ended EXIT_SUCCESS })
      | some msg =>
          if ok then some (net.send ⟨self, svaddr, msg.bytes⟩, { c with ctrl := .recvfrom j })
          else some (net, c.fail v)
  | .recvfrom j =>
      if ok then
        (net.recv self).map fun (d, net') =>
          (net', { c with resp := store c.resp d.data
                          ctrl := .log j (received d.data).length })
      else some (net, c.fail v)
  | .log j numBytes =>
      some (net, { c with log := c.log ++ [(v.number j, printed c.resp numBytes)]
                          ctrl := .sendto (j + 1) })
  | .ended _ => none

/-- `main` of the server; a `remove` that finds nothing to remove counts as successful. -/
def serverStep [DecidableEq α] (v : Version) (svaddr : α) (net : Network α (List UInt8))
    (s : Server α) (ok : Bool) : Option (Network α (List UInt8) × Server α) :=
  match s.ctrl with
  | .socket =>
      let next := match v with
        | .task2 => .bind
        | .task4 => .remove
      some (net, if ok then { s with ctrl := next } else s.fail v)
  | .remove => some (net, if ok then { s with ctrl := .bind } else s.fail v)
  | .bind => some (net, if ok then { s with ctrl := .recvfrom } else s.fail v)
  | .recvfrom =>
      if ok then
        (net.recv svaddr).map fun (d, net') =>
          (net', { s with buf := store s.buf d.data
                          claddr := d.src
                          ctrl := .convert 0 (received d.data).length })
      else some (net, s.fail v)
  | .convert j numBytes =>
      if j < numBytes then
        some (net, { s with buf := s.buf.modify j toupper, ctrl := .convert (j + 1) numBytes })
      else some (net, { s with ctrl := .sendto numBytes })
  | .sendto numBytes =>
      if ok then
        some (net.send ⟨svaddr, s.claddr, s.buf.take numBytes⟩, { s with ctrl := .recvfrom })
      else some (net, s.fail v)
  | .ended _ => none

/-- The server, the clients and the network between them. -/
structure State (ι α : Type) where
  net    : Network α (List UInt8)
  server : Server α
  client : ι → Client

/-- A step of a program, whose call succeeds or not, or of the network. -/
inductive Act (ι : Type) where
  | client (c : ι) (ok : Bool)
  | server (ok : Bool)
  | deliver (i : Nat)
  | drop (i : Nat)

def step [DecidableEq ι] [DecidableEq α] (v : Version) (A : Addresses ι α)
    (argv : ι → List CString) (s : State ι α) : Act ι → Option (State ι α)
  | .client c ok =>
      (clientStep v A.svaddr (A.claddr c) (argv c) s.net (s.client c) ok).map fun (net, cl) =>
        { s with net, client := Function.update s.client c cl }
  | .server ok =>
      (serverStep v A.svaddr s.net s.server ok).map fun (net, server) => { s with net, server }
  | .deliver i => (s.net.deliver i).map fun net => { s with net }
  | .drop i => (s.net.drop i).map fun net => { s with net }

/-- Nothing has happened yet; `buf`, `claddr` and `resp` are what the variables hold by chance. -/
def State.fresh (buf : List UInt8) (claddr : α) (resp : ι → List UInt8) : State ι α where
  net    := .quiet
  server := ⟨.socket, buf, claddr, none⟩
  client := fun c => ⟨.usage, resp c, [], none⟩

/-! ## At most one datagram of each client -/

/-- What the server answers to `msg`. -/
def upper (msg : List UInt8) : List UInt8 := (received msg).map toupper

/-- A client between two messages, one that waits for the response to `msg`, and one that is
    gone. -/
inductive Status where
  | idle
  | waiting (msg : List UInt8)
  | gone

/-- How many datagrams of a client may be on their way. -/
def Status.bound : Status → Nat
  | .idle => 0
  | .waiting _ | .gone => 1

/-- The datagram is one to or from the client `c`. -/
def Belongs (A : Addresses ι α) (c : ι) (d : Packet α (List UInt8)) : Prop :=
  d.src = A.claddr c ∨ d.dst = A.claddr c

instance [DecidableEq α] (A : Addresses ι α) (c : ι) : DecidablePred (Belongs A c) := fun d =>
  inferInstanceAs (Decidable (d.src = A.claddr c ∨ d.dst = A.claddr c))

/-- The server is between receiving a datagram from `a` and answering it. -/
def Server.serves (s : Server α) (a : α) : Prop :=
  match s.ctrl with
  | .convert _ _ | .sendto _ => s.claddr = a
  | _ => False

instance [DecidableEq α] (s : Server α) (a : α) : Decidable (s.serves a) := by
  unfold Server.serves
  split <;> infer_instance

/-- The datagram is the request of `c`, or the response to it. -/
def Genuine (A : Addresses ι α) (c : ι) (w : Status) (d : Packet α (List UInt8)) : Prop :=
  (d.src = A.claddr c ∧ d.dst = A.svaddr ∧ ∀ msg, w = .waiting msg → d.data = msg) ∨
    (d.src = A.svaddr ∧ d.dst = A.claddr c ∧ ∀ msg, w = .waiting msg → d.data = upper msg)

/-- What the server has in its buffer belongs to the client in `claddr`. -/
def Serving (A : Addresses ι α) (w : ι → Status) (s : Server α) : Prop :=
  match s.ctrl with
  | .convert j numBytes => ∃ c data, s.claddr = A.claddr c ∧ j ≤ numBytes ∧
      data.length = numBytes ∧ s.buf.take numBytes = mapping toupper j data ∧
      ∀ msg, w c = .waiting msg → data = received msg
  | .sendto numBytes => ∃ c, s.claddr = A.claddr c ∧
      ∀ msg, w c = .waiting msg → s.buf.take numBytes = upper msg
  | _ => True

/-- Of each client there is at most one datagram, in the network or in the server, and it is about
    the message that the client waits for.  Only what the clients wait for matters here. -/
structure Held [DecidableEq α] (A : Addresses ι α) (w : ι → Status)
    (net : Network α (List UInt8)) (server : Server α) : Prop where
  one     : ∀ c, net.outstanding (Belongs A c) + (if server.serves (A.claddr c) then 1 else 0)
    ≤ (w c).bound
  genuine : ∀ d ∈ net.all, ∃ c, Genuine A c (w c) d
  serving : Serving A w server

variable [DecidableEq ι] [DecidableEq α] {A : Addresses ι α} {w : ι → Status}
  {net net' : Network α (List UInt8)} {server server' : Server α} {v : Version}

omit [DecidableEq ι] [DecidableEq α] in
/-- A genuine datagram is about one client only. -/
theorem Genuine.unique {c c' : ι} {u : Status} {d : Packet α (List UInt8)}
    (h : Genuine A c u d) (h' : Belongs A c' d) : c' = c := by
  rcases h with ⟨hsrc, hdst, -⟩ | ⟨hsrc, hdst, -⟩
  · rcases h' with h' | h'
    · exact A.injective (h'.symm.trans hsrc)
    · exact absurd (h'.symm.trans hdst) (A.ne_svaddr c')
  · rcases h' with h' | h'
    · exact absurd (h'.symm.trans hsrc) (A.ne_svaddr c')
    · exact A.injective (h'.symm.trans hdst)

omit [DecidableEq ι] in
/-- Fewer datagrams: the network delivers or drops, or somebody receives. -/
theorem Held.fewer (h : Held A w net server)
    (hcount : ∀ c, net'.outstanding (Belongs A c) ≤ net.outstanding (Belongs A c))
    (hsub : ∀ d ∈ net'.all, d ∈ net.all) : Held A w net' server where
  one := fun c => (Nat.add_le_add_right (hcount c) _).trans (h.one c)
  genuine := fun d hd => h.genuine d (hsub d hd)
  serving := h.serving

omit [DecidableEq ι] in
/-- The server is done with the client that it serves, or gives up. -/
theorem Held.released (h : Held A w net server) (hfree : ∀ a, ¬ server'.serves a) :
    Held A w net server' where
  one := by
    intro c
    rw [if_neg (hfree _)]
    exact (Nat.le_add_right _ _).trans (h.one c)
  genuine := h.genuine
  serving := by
    have hfree := hfree server'.claddr
    rw [Server.serves] at hfree
    rw [Serving]
    cases hc : server'.ctrl with
    | convert j numBytes =>
        rw [hc] at hfree
        exact absurd rfl hfree
    | sendto numBytes =>
        rw [hc] at hfree
        exact absurd rfl hfree
    | _ => trivial

/-- A client goes on; if it waits for something now, then nothing of it is on its way. -/
theorem Held.update (h : Held A w net server) (c : ι) {u : Status}
    (hwait : ∀ msg, u = .waiting msg → (w c).bound = 0)
    (hbound : net.outstanding (Belongs A c) + (if server.serves (A.claddr c) then 1 else 0)
      ≤ u.bound) : Held A (Function.update w c u) net server := by
  have hsame : ∀ c' msg, Function.update w c u c' = .waiting msg →
      w c' = .waiting msg ∨ c' = c ∧ (w c).bound = 0 := by
    intro c' msg hmsg
    by_cases hc : c' = c
    · subst hc
      rw [Function.update_self] at hmsg
      exact Or.inr ⟨rfl, hwait msg hmsg⟩
    · rw [Function.update_of_ne hc] at hmsg
      exact Or.inl hmsg
  refine ⟨?_, ?_, ?_⟩
  · intro c'
    by_cases hc : c' = c
    · subst hc
      rwa [Function.update_self]
    · rw [Function.update_of_ne hc]
      exact h.one c'
  · intro d hd
    obtain ⟨c', hg⟩ := h.genuine d hd
    refine ⟨c', ?_⟩
    have hnot : Belongs A c' d → ∀ msg, Function.update w c u c' = .waiting msg →
        w c' = .waiting msg := by
      intro hb msg hmsg
      rcases hsame c' msg hmsg with hw | ⟨rfl, hzero⟩
      · exact hw
      · have := h.one c'
        exact absurd hb (Network.outstanding_eq_zero (by omega) hd)
    rcases hg with ⟨hsrc, hdst, hdata⟩ | ⟨hsrc, hdst, hdata⟩
    · exact Or.inl ⟨hsrc, hdst, fun msg hmsg => hdata msg (hnot (Or.inl hsrc) msg hmsg)⟩
    · exact Or.inr ⟨hsrc, hdst, fun msg hmsg => hdata msg (hnot (Or.inr hdst) msg hmsg)⟩
  · have hnot : ∀ c', server.serves (A.claddr c') → ∀ msg,
        Function.update w c u c' = .waiting msg → w c' = .waiting msg := by
      intro c' hs msg hmsg
      rcases hsame c' msg hmsg with hw | ⟨rfl, hzero⟩
      · exact hw
      · have := h.one c'
        rw [if_pos hs, hzero] at this
        omega
    have hserving := h.serving
    rw [Serving] at hserving ⊢
    unfold Server.serves at hnot
    cases hc : server.ctrl with
    | convert j numBytes =>
        rw [hc] at hserving hnot
        obtain ⟨c', data, haddr, hj, hlen, hbuf, hdata⟩ := hserving
        exact ⟨c', data, haddr, hj, hlen, hbuf, fun msg hmsg => hdata msg (hnot c' haddr msg hmsg)⟩
    | sendto numBytes =>
        rw [hc] at hserving hnot
        obtain ⟨c', haddr, hbuf⟩ := hserving
        exact ⟨c', haddr, fun msg hmsg => hbuf msg (hnot c' haddr msg hmsg)⟩
    | _ => trivial

omit [DecidableEq ι] in
/-- A genuine datagram is sent, for a client that has none yet. -/
theorem Held.send (h : Held A w net server) {c : ι} {d : Packet α (List UInt8)}
    (hd : Genuine A c (w c) d)
    (hroom : net.outstanding (Belongs A c) + (if server.serves (A.claddr c) then 1 else 0)
      < (w c).bound) : Held A w (net.send d) server where
  one := by
    intro c'
    rw [Network.outstanding_send]
    by_cases hb : Belongs A c' d
    · have hc := hd.unique hb
      subst hc
      rw [if_pos hb]
      omega
    · rw [if_neg hb]
      exact h.one c'
  genuine := by
    intro e he
    rcases List.mem_cons.mp (Network.perm_send.mem_iff.mp he) with rfl | he
    · exact ⟨c, hd⟩
    · exact h.genuine e he
  serving := h.serving

omit [DecidableEq ι] in
/-- What the server does with the datagram that it takes. -/
theorem Held.taken (h : Held A w net server) {d : Packet α (List UInt8)}
    (hfree : ∀ a, ¬ server.serves a) (hrecv : net.recv A.svaddr = some (d, net')) :
    Held A w net' { server with
      buf := store server.buf d.data
      claddr := d.src
      ctrl := .convert 0 (received d.data).length } := by
  obtain ⟨hdst, hperm⟩ := Network.perm_recv hrecv
  obtain ⟨c, hg⟩ := h.genuine d (hperm.mem_iff.mpr List.mem_cons_self)
  -- what is addressed to the server is a request
  obtain ⟨hsrc, hdata⟩ : d.src = A.claddr c ∧ ∀ msg, w c = .waiting msg → d.data = msg := by
    rcases hg with ⟨hsrc, -, hdata⟩ | ⟨-, hdst', -⟩
    · exact ⟨hsrc, hdata⟩
    · exact absurd (hdst'.symm.trans hdst) (A.ne_svaddr c)
  refine ⟨?_, fun e he => h.genuine e (hperm.mem_iff.mpr (List.mem_cons_of_mem d he)), ?_⟩
  · intro c'
    have hone := h.one c'
    rw [if_neg (hfree _), Network.outstanding_recv hrecv] at hone
    have hserves : d.src = A.claddr c' ↔ Belongs A c' d := by
      refine ⟨Or.inl, ?_⟩
      intro hb
      rw [hg.unique hb]
      exact hsrc
    show net'.outstanding (Belongs A c') + (if d.src = A.claddr c' then 1 else 0) ≤ _
    simpa only [hserves, Nat.add_zero] using hone
  · refine ⟨c, received d.data, hsrc, Nat.zero_le _, rfl, ?_, ?_⟩
    · rw [mapping_zero]
      exact List.take_left
    · intro msg hmsg
      rw [hdata msg hmsg]

omit [DecidableEq ι] in
/-- **One step of the server.** -/
theorem Held.serverStep {ok : Bool} (h : Held A w net server)
    (hs : serverStep v A.svaddr net server ok = some (net', server')) :
    Held A w net' server' := by
  have hfail : Held A w net (server.fail v) := h.released fun a => id
  unfold UpperCase.serverStep at hs
  cases hc : server.ctrl with
  | socket =>
      simp only [hc, Option.some.injEq, Prod.mk.injEq] at hs
      obtain ⟨rfl, rfl⟩ := hs
      cases ok with
      | true => cases v <;> exact h.released fun a => id
      | false => exact hfail
  | remove =>
      simp only [hc, Option.some.injEq, Prod.mk.injEq] at hs
      obtain ⟨rfl, rfl⟩ := hs
      cases ok with
      | true => exact h.released fun a => id
      | false => exact hfail
  | bind =>
      simp only [hc, Option.some.injEq, Prod.mk.injEq] at hs
      obtain ⟨rfl, rfl⟩ := hs
      cases ok with
      | true => exact h.released fun a => id
      | false => exact hfail
  | recvfrom =>
      simp only [hc] at hs
      cases ok with
      | true =>
          obtain ⟨⟨d, n⟩, hrecv, heq⟩ := Option.map_eq_some_iff.mp hs
          cases heq
          refine h.taken ?_ hrecv
          intro a
          rw [Server.serves, hc]
          exact id
      | false =>
          cases hs
          exact hfail
  | convert j numBytes =>
      simp only [hc] at hs
      have hserving := h.serving
      rw [Serving, hc] at hserving
      obtain ⟨c, data, haddr, hj, hlen, hbuf, hdata⟩ := hserving
      have hone := h.one
      simp only [Server.serves, hc] at hone
      split at hs
      case isTrue hlt =>
        cases hs
        refine ⟨hone, h.genuine, c, data, haddr, hlt, hlen, ?_, hdata⟩
        rw [List.take_modify, hbuf, modify_mapping toupper (hlen ▸ hlt)]
      case isFalse hge =>
        cases hs
        refine ⟨hone, h.genuine, c, haddr, ?_⟩
        intro msg hmsg
        have hall : j = data.length := by omega
        rw [hbuf, hall, mapping_length, hdata msg hmsg, upper]
  | sendto numBytes =>
      simp only [hc] at hs
      cases ok with
      | true =>
          have hserving := h.serving
          rw [Serving, hc] at hserving
          obtain ⟨c, haddr, hbuf⟩ := hserving
          cases hs
          refine Held.send (h.released fun a => id) (c := c) (Or.inr ⟨rfl, haddr, hbuf⟩) ?_
          have hone := h.one c
          simp only [Server.serves, hc, haddr, if_true] at hone
          rw [if_neg (by exact id)]
          omega
      | false =>
          cases hs
          exact hfail
  | ended status =>
      simp [hc] at hs

/-- A client with nothing on its way goes on, or gives up. -/
theorem Held.goesOn (h : Held A w net server) {c : ι} (hzero : (w c).bound = 0) (u : Status) :
    Held A (Function.update w c u) net server := by
  refine h.update c (fun _ _ => hzero) ((h.one c).trans ?_)
  rw [hzero]
  exact Nat.zero_le _

/-- A client with nothing on its way sends its next message. -/
theorem Held.asked (h : Held A w net server) {c : ι} (hzero : (w c).bound = 0)
    (msg : List UInt8) :
    Held A (Function.update w c (.waiting msg)) (net.send ⟨A.claddr c, A.svaddr, msg⟩) server := by
  have hone := h.one c
  rw [hzero] at hone
  refine (h.goesOn hzero (.waiting msg)).send (c := c) (Or.inl ⟨rfl, rfl, ?_⟩) ?_
  · intro m hm
    rw [Function.update_self] at hm
    cases hm
    rfl
  · rw [Function.update_self, Status.bound]
    omega

/-- **A client that waits receives** the response to its message, and then has nothing on its
    way. -/
theorem Held.answered (h : Held A w net server) {c : ι} {msg : List UInt8}
    {d : Packet α (List UInt8)} (hw : w c = .waiting msg)
    (hrecv : net.recv (A.claddr c) = some (d, net')) :
    d.data = upper msg ∧ Held A (Function.update w c .idle) net' server := by
  obtain ⟨hdst, hperm⟩ := Network.perm_recv hrecv
  obtain ⟨c', hg⟩ := h.genuine d (hperm.mem_iff.mpr List.mem_cons_self)
  have hc : c = c' := hg.unique (Or.inr hdst)
  subst hc
  refine ⟨?_, ?_⟩
  · rcases hg with ⟨-, hdst', -⟩ | ⟨-, -, hdata⟩
    · exact absurd (hdst.symm.trans hdst') (A.ne_svaddr c)
    · exact hdata msg hw
  · have hfewer : Held A w net' server := by
      refine h.fewer ?_ fun e he => hperm.mem_iff.mpr (List.mem_cons_of_mem d he)
      intro c'
      rw [Network.outstanding_recv hrecv]
      exact Nat.le_add_right _ _
    refine hfewer.update c (fun _ hm => (by cases hm)) ?_
    have hone := h.one c
    have hb : Belongs A c d := Or.inr hdst
    rw [Network.outstanding_recv hrecv, if_pos hb, hw, Status.bound] at hone
    rw [Status.bound]
    omega

/-! ## What a client logs -/

/-- The messages of a client, and the responses to them as they are to be logged. -/
def responses (v : Version) (argv : List CString) : List (Nat × List UInt8) :=
  (argv.drop v.firstMsg).mapIdx fun k msg => (k + 1, upper msg.bytes)

def Client.status (argv : List CString) (c : Client) : Status :=
  match c.ctrl with
  | .recvfrom j => argv[j]?.elim .gone fun msg => .waiting msg.bytes
  | .ended _ => .gone
  | _ => .idle

/-- At the control point, `k` responses have been logged. -/
def ClientCtrl.Logged (v : Version) (k : Nat) : ClientCtrl → Prop
  | .sendto j | .recvfrom j | .log j _ => j = v.firstMsg + k
  | .ended _ => True
  | _ => k = 0

/-- The client has logged the responses to its first messages, and has in its buffer the response
    that it logs next. -/
structure Follows (v : Version) (argv : List CString) (c : Client) : Prop where
  log  : ∃ k, c.log = (responses v argv).take k ∧ c.ctrl.Logged v k
  sent : ∀ j, c.ctrl = .recvfrom j → ∃ msg, argv[j]? = some msg
  told : ∀ j n, c.ctrl = .log j n → ∃ msg, argv[j]? = some msg ∧ c.resp.take n = upper msg.bytes

theorem number_firstMsg (v : Version) (k : Nat) : v.number (v.firstMsg + k) = k + 1 := by
  cases v with
  | task2 => show 2 + k - 1 = k + 1; omega
  | task4 => show 1 + k = k + 1; omega

theorem toupper_ne_zero {c : UInt8} (h : c ≠ 0) : toupper c ≠ 0 := by
  rw [toupper]
  split
  case isTrue hlower =>
    intro hz
    have hle : (32 : UInt8) ≤ c := UInt8.le_trans (by decide) hlower.1
    have hsub := congrArg UInt8.toNat hz
    rw [UInt8.toNat_sub_of_le _ _ hle] at hsub
    have h97 : 97 ≤ c.toNat := hlower.1
    change c.toNat - 32 = 0 at hsub
    omega
  case isFalse => exact h

/-- The response to a C string is printed whole. -/
theorem printed_upper {buf : List UInt8} {n : Nat} {msg : CString}
    (h : buf.take n = upper msg.bytes) : printed buf n = upper msg.bytes := by
  rw [printed, h, List.takeWhile_eq_self_iff]
  intro c hc
  obtain ⟨b, hb, rfl⟩ := List.mem_map.mp hc
  have hne : b ≠ 0 := by
    rintro rfl
    exact msg.noNul (List.mem_of_mem_take hb)
  simpa using toupper_ne_zero hne

theorem responses_getElem? (v : Version) (argv : List CString) (k : Nat) :
    (responses v argv)[k]? = argv[v.firstMsg + k]?.map fun msg => (k + 1, upper msg.bytes) := by
  rw [responses, List.getElem?_mapIdx, List.getElem?_drop]

omit [DecidableEq α] in
theorem Status.bound_le_one (u : Status) : u.bound ≤ 1 := by
  cases u with
  | idle => exact Nat.zero_le 1
  | waiting msg => exact Nat.le_refl 1
  | gone => exact Nat.le_refl 1

theorem Client.status_waiting {argv : List CString} {c : Client} {j : Nat} {msg : CString}
    (hc : c.ctrl = .recvfrom j) (hmsg : argv[j]? = some msg) :
    c.status argv = .waiting msg.bytes := by
  unfold Client.status
  simp only [hc, hmsg, Option.elim_some]

/-- The control points at which nothing is expected of the client's variables. -/
def ClientCtrl.plain : ClientCtrl → Bool
  | .recvfrom _ | .log _ _ => false
  | _ => true

theorem Follows.of_plain {argv : List CString} {c : Client} {k : Nat}
    (hlog : c.log = (responses v argv).take k) (hk : c.ctrl.Logged v k)
    (hplain : c.ctrl.plain = true) : Follows v argv c where
  log := ⟨k, hlog, hk⟩
  sent := by
    intro j hj
    rw [hj] at hplain
    cases hplain
  told := by
    intro j n hj
    rw [hj] at hplain
    cases hplain

/-- **One step of a client.** -/
theorem Held.clientStep {c : ι} {cl cl' : Client} {argv : List CString} {ok : Bool}
    (h : Held A w net server) (hw : w c = cl.status argv) (hf : Follows v argv cl)
    (hs : clientStep v A.svaddr (A.claddr c) argv net cl ok = some (net', cl')) :
    Held A (Function.update w c (cl'.status argv)) net' server ∧ Follows v argv cl' := by
  obtain ⟨k, hlog, hk⟩ := hf.log
  have hfail : Held A (Function.update w c ((cl.fail v).status argv)) net server ∧
      Follows v argv (cl.fail v) := by
    refine ⟨h.update c (fun msg hmsg => (by cases hmsg)) ?_, .of_plain hlog trivial rfl⟩
    exact (h.one c).trans (w c).bound_le_one
  unfold UpperCase.clientStep at hs
  cases hc : cl.ctrl with
  | usage =>
      simp only [hc] at hs
      have hidle : (w c).bound = 0 := by rw [hw, Client.status, hc]; rfl
      rw [hc] at hk
      split at hs
      · cases hs
        exact hfail
      · cases hs
        exact ⟨h.goesOn hidle _, .of_plain hlog hk rfl⟩
  | socket =>
      simp only [hc, Option.some.injEq, Prod.mk.injEq] at hs
      obtain ⟨rfl, rfl⟩ := hs
      have hidle : (w c).bound = 0 := by rw [hw, Client.status, hc]; rfl
      rw [hc] at hk
      cases ok with
      | true =>
          exact ⟨h.goesOn hidle _, .of_plain hlog hk rfl⟩
      | false => exact hfail
  | address =>
      simp only [hc, Option.some.injEq, Prod.mk.injEq] at hs
      obtain ⟨rfl, rfl⟩ := hs
      have hidle : (w c).bound = 0 := by rw [hw, Client.status, hc]; rfl
      rw [hc] at hk
      change k = 0 at hk
      subst hk
      cases ok with
      | true =>
          exact ⟨h.goesOn hidle _, .of_plain hlog rfl rfl⟩
      | false => exact hfail
  | sendto j =>
      simp only [hc] at hs
      have hidle : (w c).bound = 0 := by rw [hw, Client.status, hc]; rfl
      rw [hc] at hk
      cases hmsg : argv[j]? with
      | none =>
          simp only [hmsg, Option.some.injEq, Prod.mk.injEq] at hs
          obtain ⟨rfl, rfl⟩ := hs
          exact ⟨h.goesOn hidle _, .of_plain hlog trivial rfl⟩
      | some msg =>
          simp only [hmsg] at hs
          cases ok with
          | true =>
              cases hs
              rw [Client.status_waiting rfl hmsg]
              refine ⟨h.asked hidle msg.bytes, ⟨k, hlog, hk⟩, ?_, fun j n hj => (by cases hj)⟩
              intro j' hj
              cases hj
              exact ⟨msg, hmsg⟩
          | false =>
              cases hs
              exact hfail
  | recvfrom j =>
      simp only [hc] at hs
      rw [hc] at hk
      obtain ⟨msg, hmsg⟩ := hf.sent j hc
      cases ok with
      | true =>
          obtain ⟨⟨d, n⟩, hrecv, heq⟩ := Option.map_eq_some_iff.mp hs
          cases heq
          have hwait : w c = .waiting msg.bytes := hw.trans (Client.status_waiting hc hmsg)
          obtain ⟨hdata, hheld⟩ := h.answered hwait hrecv
          refine ⟨hheld, ⟨k, hlog, hk⟩, fun j hj => (by cases hj), ?_⟩
          intro j' n' hj
          cases hj
          refine ⟨msg, hmsg, ?_⟩
          -- the response is no longer than the buffer
          show (store cl.resp d.data).take (received d.data).length = _
          rw [store, List.take_left, hdata, upper, received, ← List.map_take, received,
            List.take_take, Nat.min_self]
      | false =>
          cases hs
          exact hfail
  | log j numBytes =>
      simp only [hc] at hs
      cases hs
      have hidle : (w c).bound = 0 := by rw [hw, Client.status, hc]; rfl
      rw [hc] at hk
      change j = v.firstMsg + k at hk
      subst hk
      obtain ⟨msg, hmsg, hresp⟩ := hf.told _ _ hc
      refine ⟨h.goesOn hidle _, .of_plain (k := k + 1) ?_ rfl rfl⟩
      show cl.log ++ [_] = _
      rw [List.take_add_one, responses_getElem?, hmsg, hlog, printed_upper hresp, number_firstMsg]
      rfl
  | ended status => simp [hc] at hs

/-! ## The whole system -/

/-- What every client waits for. -/
def State.status (argv : ι → List CString) (s : State ι α) (c : ι) : Status :=
  (s.client c).status (argv c)

structure Inv (v : Version) (A : Addresses ι α) (argv : ι → List CString) (s : State ι α) :
    Prop where
  held    : Held A (s.status argv) s.net s.server
  follows : ∀ c, Follows v (argv c) (s.client c)

variable {argv : ι → List CString}

/-- **One step** of the system. -/
theorem Inv.step {s s' : State ι α} {a : Act ι} (hI : Inv v A argv s)
    (hs : step v A argv s a = some s') : Inv v A argv s' := by
  cases a with
  | client c ok =>
      obtain ⟨⟨net, cl⟩, hstep, heq⟩ := Option.map_eq_some_iff.mp hs
      cases heq
      obtain ⟨hheld, hfollows⟩ := hI.held.clientStep rfl (hI.follows c) hstep
      refine ⟨?_, ?_⟩
      · have hstatus : Function.update (s.status argv) c (cl.status (argv c))
            = State.status argv { s with net, client := Function.update s.client c cl } := by
          funext c'
          by_cases hc : c' = c
          · subst hc
            simp [State.status]
          · simp [State.status, hc]
        exact hstatus ▸ hheld
      · intro c'
        by_cases hc : c' = c
        · subst hc
          show Follows v (argv c') (Function.update s.client c' cl c')
          rwa [Function.update_self]
        · show Follows v (argv c') (Function.update s.client c cl c')
          rw [Function.update_of_ne hc]
          exact hI.follows c'
  | server ok =>
      obtain ⟨⟨net, server⟩, hstep, heq⟩ := Option.map_eq_some_iff.mp hs
      cases heq
      exact ⟨hI.held.serverStep hstep, hI.follows⟩
  | deliver i =>
      obtain ⟨net, hdeliver, heq⟩ := Option.map_eq_some_iff.mp hs
      cases heq
      refine ⟨hI.held.fewer ?_ ?_, hI.follows⟩
      · intro c
        exact (Network.outstanding_deliver hdeliver).le
      · intro d hd
        exact (Network.perm_deliver hdeliver).mem_iff.mp hd
  | drop i =>
      obtain ⟨net, hdrop, heq⟩ := Option.map_eq_some_iff.mp hs
      cases heq
      refine ⟨hI.held.fewer ?_ ?_, hI.follows⟩
      · intro c
        exact Network.outstanding_drop hdrop
      · intro d hd
        exact (Network.sublist_drop hdrop).subset hd

omit [DecidableEq ι] in
theorem Inv.fresh (v : Version) (A : Addresses ι α) (argv : ι → List CString) (buf : List UInt8)
    (claddr : α) (resp : ι → List UInt8) : Inv v A argv (.fresh buf claddr resp) where
  held := ⟨fun c => Nat.zero_le _, fun d hd => (by cases hd), trivial⟩
  follows := fun c => .of_plain (k := 0) rfl rfl rfl

/-- **A client logs the responses to its own messages**, in order and without a gap. -/
theorem log_eq_take {buf : List UInt8} {claddr : α} {resp : ι → List UInt8} {s : State ι α}
    (h : Reachable (UpperCase.step v A argv) (.fresh buf claddr resp) s) (c : ι) :
    ∃ k, (s.client c).log = (responses v (argv c)).take k := by
  have hI : Inv v A argv s :=
    h.invariant (.fresh v A argv buf claddr resp) fun _ _ _ hI _ hs => hI.step hs
  obtain ⟨k, hlog, -⟩ := (hI.follows c).log
  exact ⟨k, hlog⟩

/-- **WHAT THE CLIENTS LOG.**  With any number of clients and messages and in any order of the
    steps, the `k`-th response that a client logs is the upper-case form of the first `BUF_SIZE`
    bytes of its `k`-th message. -/
theorem response_eq (v : Version) (A : Addresses ι α) (argv : ι → List CString)
    (buf : List UInt8) (claddr : α) (resp : ι → List UInt8) (s : State ι α)
    (h : Reachable (UpperCase.step v A argv) (.fresh buf claddr resp) s) (c : ι) (k : Nat)
    (r : Nat × List UInt8) (hr : (s.client c).log[k]? = some r) :
    ∃ msg, ((argv c).drop v.firstMsg)[k]? = some msg ∧
      r = (k + 1, (msg.bytes.take BUF_SIZE).map toupper) := by
  obtain ⟨n, hlog⟩ := log_eq_take h c
  rw [hlog] at hr
  rw [List.getElem?_take, responses, List.getElem?_mapIdx] at hr
  obtain ⟨-, hr⟩ := Option.ite_none_right_eq_some.mp hr
  obtain ⟨msg, hmsg, heq⟩ := Option.map_eq_some_iff.mp hr
  exact ⟨msg, hmsg, heq.symm⟩

/-- Two clients and a server. -/
def twoClients : Addresses Bool (Option Bool) :=
  ⟨none, some, Option.some.inj, fun _ h => (by cases h)⟩

/-- One is given `"hello, world"` and the empty message, the other `"Abc"`. -/
def twoArgv : Bool → List CString
  | true => [⟨[], by decide⟩, ⟨[], by decide⟩,
      ⟨[104, 101, 108, 108, 111, 44, 32, 119, 111, 114, 108, 100], by decide⟩, ⟨[], by decide⟩]
  | false => [⟨[], by decide⟩, ⟨[], by decide⟩, ⟨[65, 98, 99], by decide⟩]

/-- The two first requests and the responses to them overtake each other. -/
def overtaking : List (Act Bool) :=
  List.flatten [
    List.replicate 2 (.server true),
    List.replicate 4 (.client true true), List.replicate 4 (.client false true),
    [.deliver 1, .deliver 0], List.replicate 19 (.server true), [.deliver 1, .deliver 0],
    List.replicate 3 (.client true true), List.replicate 2 (.client false true),
    [.deliver 0], List.replicate 3 (.server true), [.deliver 0],
    List.replicate 2 (.client true true)]

/-- The client has logged `"HELLO, WOR"` and the empty response. -/
theorem response_overtaking :
    ∃ s, Reachable (UpperCase.step .task2 twoClients twoArgv) (.fresh [] none fun _ => []) s ∧
      (s.client true).log = [(1, [72, 69, 76, 76, 79, 44, 32, 87, 79, 82]), (2, [])] ∧
      ∃ msg, ((twoArgv true).drop 2)[0]? = some msg ∧
        (1, [72, 69, 76, 76, 79, 44, 32, 87, 79, 82])
          = (1, (msg.bytes.take BUF_SIZE).map toupper) := by
  obtain ⟨s, hs, hlog⟩ := reachable_of_run_map (UpperCase.step .task2 twoClients twoArgv)
    (.fresh [] none fun _ => []) overtaking (fun s => (s.client true).log)
    (c := [(1, [72, 69, 76, 76, 79, 44, 32, 87, 79, 82]), (2, [])]) (by decide +kernel)
  refine ⟨s, hs, hlog, ?_⟩
  exact response_eq .task2 twoClients twoArgv [] none (fun _ => []) s hs true 0 _ (by rw [hlog]; rfl)

end UpperCase
