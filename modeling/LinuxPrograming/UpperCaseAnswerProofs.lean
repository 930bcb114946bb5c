import LinuxPrograming.UpperCaseProofs
import LinuxPrograming.ByteStreamProofs
import Mathlib.Data.Fintype.BigOperators

/-!
# Which clients are answered (`6-Socket/task2/`, `6-Socket/task4/`)

Neither program sends a datagram again.  As long as no call fails, a client is therefore answered up
to the first datagram, to or from it, that is lost; then it waits in `recvfrom` for ever.

* **`Inv.exact`** — of a waiting client there is one datagram on its way or lost, of any other none.
* **`lost_or_answered`** — every run ends, and then as many clients still wait as datagrams are lost;
  all the others have logged the responses to all their messages, or their usage.
-/

namespace UpperCase

open Transition Datagram CmnBase InPlace
open TaskQueue (CString)

variable {ι α : Type}

/-! ## Runs in which no call fails -/

/-- The client prints its usage and exits. -/
def WrongUsage (v : Version) (argv : List CString) : Prop :=
  argv.length < v.firstMsg + 1 ∨ argv[1]?.map CString.bytes = some helpOption

instance (v : Version) (argv : List CString) : Decidable (WrongUsage v argv) :=
  inferInstanceAs (Decidable (_ ∨ _))

/-- There is a socket with the address of the server. -/
def ServerCtrl.bound : ServerCtrl → Bool
  | .recvfrom | .convert _ _ | .sendto _ => true
  | .socket | .remove | .bind | .ended _ => false

/-- The server has taken a datagram that it has not answered. -/
def ServerCtrl.busy : ServerCtrl → Bool
  | .convert _ _ | .sendto _ => true
  | _ => false

def ClientCtrl.sends : ClientCtrl → Bool
  | .sendto _ => true
  | _ => false

/-- No call fails.  With the UNIX sockets of `task4` a client that sends before the server is bound
    has failed; the `sendto` of `task2` succeeds then, and its datagram is one that may be lost. -/
def Calm (v : Version) (s : State ι α) : Act ι → Prop
  | .client c ok => ok = true ∧
      (v = .task4 → (s.client c).ctrl.sends = true → s.server.ctrl.bound = true)
  | .server ok => ok = true
  | .deliver _ | .drop _ => True

instance (v : Version) (s : State ι α) (a : Act ι) : Decidable (Calm v s a) := by
  cases a <;> unfold Calm <;> infer_instance

/-- The network loses a datagram. -/
def Act.loses : Act ι → Bool
  | .drop _ => true
  | .client _ _ | .server _ | .deliver _ => false

/-- The client has nothing more to do: it was used wrongly and has said so, or has logged all its
    responses. -/
def Answered (v : Version) (argv : List CString) (c : Client) : Prop :=
  if WrongUsage v argv then
    c.ctrl = .ended EXIT_FAILURE ∧ c.log = [] ∧ c.error = some (v.clientError .usage)
  else c.ctrl = .ended EXIT_SUCCESS ∧ c.log = responses v argv ∧ c.error = none

instance (v : Version) (argv : List CString) (c : Client) : Decidable (Answered v argv c) := by
  unfold Answered
  infer_instance

/-- What the client has found out about its arguments, and how it ends. -/
def Client.Decided (v : Version) (argv : List CString) (c : Client) : Prop :=
  match c.ctrl with
  | .usage => c.error = none
  | .ended _ => Answered v argv c
  | _ => ¬ WrongUsage v argv ∧ c.error = none

/-! ## What is on its way for a client -/

/-- How many datagrams are on the way for a client, in the network or in the server. -/
def inTransit [DecidableEq α] (A : Addresses ι α) (c : ι) (net : Network α (List UInt8))
    (server : Server α) : Nat :=
  net.outstanding (Belongs A c) + if server.serves (A.claddr c) then 1 else 0

/-- How many there are if none is lost. -/
def Status.due : Status → Nat
  | .waiting _ => 1
  | .idle | .gone => 0

/-- What is left to do, in the client and for the datagrams of its messages. -/
def ClientCtrl.weight (argc : Nat) : ClientCtrl → Nat
  | .usage => 20 * argc + 4
  | .socket => 20 * argc + 3
  | .address => 20 * argc + 2
  | .sendto j => 20 * (argc - j) + 1
  | .recvfrom j => 20 * (argc - j) - 16
  | .log j _ => 20 * (argc - j) - 17
  | .ended _ => 0

/-- What is left to do in the server. -/
def ServerCtrl.weight : ServerCtrl → Nat
  | .socket => 3
  | .remove => 2
  | .bind => 1
  | .recvfrom => 0
  | .convert j numBytes => numBytes - j + 3
  | .sendto _ => 2
  | .ended _ => 0

/-- What is left to do for a datagram that has arrived at `dst`, and for one in flight. -/
def handling [DecidableEq α] (svaddr : α) (d : Packet α (List UInt8)) : Nat :=
  if d.dst = svaddr then BUF_SIZE + 4 else 0

def carrying [DecidableEq α] (svaddr : α) (d : Packet α (List UInt8)) : Nat :=
  handling svaddr d + 1

def netWeight [DecidableEq α] (svaddr : α) (net : Network α (List UInt8)) : Nat :=
  net.weight (carrying svaddr) (handling svaddr)

variable [DecidableEq α] {A : Addresses ι α} {w : ι → Status} {net net' : Network α (List UInt8)}
  {server server' : Server α} {v : Version} {c : ι}

omit [DecidableEq α] in
theorem not_serves {s : Server α} (h : s.ctrl.busy = false) (a : α) : ¬ s.serves a := by
  rw [Server.serves]
  cases hc : s.ctrl with
  | convert j numBytes => rw [hc] at h; cases h
  | sendto numBytes => rw [hc] at h; cases h
  | _ => exact id

theorem inTransit_free (h : ∀ a, ¬ server.serves a) :
    inTransit A c net server = net.outstanding (Belongs A c) := by
  rw [inTransit, if_neg (h _), Nat.add_zero]

theorem inTransit_congr (hnet : net'.outstanding (Belongs A c) = net.outstanding (Belongs A c))
    (hserves : server'.serves (A.claddr c) ↔ server.serves (A.claddr c)) :
    inTransit A c net' server' = inTransit A c net server := by
  rw [inTransit, inTransit, hnet]
  exact congrArg _ (if_congr hserves rfl rfl)

/-- What the server makes of the datagrams if no call fails. -/
structure Proceeds (A : Addresses ι α) (net : Network α (List UInt8)) (server : Server α)
    (net' : Network α (List UInt8)) (server' : Server α) : Prop where
  transit : ∀ c, inTransit A c net' server' = inTransit A c net server
  weight  : netWeight A.svaddr net' + server'.ctrl.weight
    < netWeight A.svaddr net + server.ctrl.weight
  runs    : ∀ status, server'.ctrl ≠ .ended status

/-- Before it is bound, and after, the server has nothing to answer. -/
theorem Proceeds.setup {ctrl : ServerCtrl} (hfree : server.ctrl.busy = false)
    (hfree' : ctrl.busy = false) (hless : ctrl.weight < server.ctrl.weight)
    (hruns : ∀ status, ctrl ≠ .ended status) :
    Proceeds A net server net { server with ctrl := ctrl } where
  transit := fun _ => inTransit_congr rfl
    (iff_of_false (not_serves (s := { server with ctrl := ctrl }) hfree' _) (not_serves hfree _))
  weight := Nat.add_lt_add_left hless _
  runs := hruns

/-- The server receives a request. -/
theorem Proceeds.receives (h : Held A w net server) (hc : server.ctrl = .recvfrom)
    {d : Packet α (List UInt8)} (hrecv : net.recv A.svaddr = some (d, net')) :
    Proceeds A net server net' { server with
      buf := store server.buf d.data
      claddr := d.src
      ctrl := .convert 0 (received d.data).length } := by
  obtain ⟨hdst, hperm⟩ := Network.perm_recv hrecv
  obtain ⟨c', hg⟩ := h.genuine d (hperm.mem_iff.mpr List.mem_cons_self)
  have hsrc : d.src = A.claddr c' := by
    rcases hg with ⟨hsrc, -, -⟩ | ⟨-, hdst', -⟩
    · exact hsrc
    · exact absurd (hdst'.symm.trans hdst) (A.ne_svaddr c')
  refine ⟨?_, ?_, fun _ h => (by cases h)⟩
  · intro c
    have hserves : d.src = A.claddr c ↔ Belongs A c d := by
      refine ⟨Or.inl, ?_⟩
      intro hb
      rw [hg.unique hb]
      exact hsrc
    rw [inTransit_free (not_serves (s := server) (by rw [hc]; rfl)),
      Network.outstanding_recv hrecv]
    exact congrArg _ (if_congr hserves rfl rfl)
  · have hweight := Network.weight_recv (f := carrying A.svaddr) (g := handling A.svaddr) hrecv
    have hlen : (received d.data).length ≤ BUF_SIZE := List.length_take_le ..
    rw [handling, if_pos hdst] at hweight
    show netWeight A.svaddr net' + ((received d.data).length - 0 + 3) < _
    rw [netWeight, netWeight]
    omega

/-- The server sends the response. -/
theorem Proceeds.responds (h : Held A w net server) {numBytes : Nat}
    (hc : server.ctrl = .sendto numBytes) :
    Proceeds A net server (net.send ⟨A.svaddr, server.claddr, server.buf.take numBytes⟩)
      { server with ctrl := .recvfrom } := by
  have hserving := h.serving
  rw [Serving, hc] at hserving
  obtain ⟨c', haddr, -⟩ := hserving
  refine ⟨?_, ?_, fun _ h => (by cases h)⟩
  · intro c
    have hbelongs : Belongs A c ⟨A.svaddr, server.claddr, server.buf.take numBytes⟩
        ↔ server.serves (A.claddr c) := by
      rw [Server.serves, hc]
      exact ⟨fun hb => hb.resolve_left fun hsrc => A.ne_svaddr c hsrc.symm, Or.inr⟩
    rw [inTransit_free fun a => id, Network.outstanding_send]
    exact congrArg _ (if_congr hbelongs rfl rfl)
  · have hne : server.claddr ≠ A.svaddr := haddr ▸ A.ne_svaddr c'
    rw [netWeight, Network.weight_send, carrying, handling, if_neg hne, hc]
    exact Nat.lt_succ_self _

/-- **A step of the server** without a failing call. -/
theorem Proceeds.of_step (h : Held A w net server)
    (hs : serverStep v A.svaddr net server true = some (net', server')) :
    Proceeds A net server net' server' := by
  unfold serverStep at hs
  cases hc : server.ctrl with
  | socket =>
      simp only [hc, if_true, Option.some.injEq, Prod.mk.injEq] at hs
      obtain ⟨rfl, rfl⟩ := hs
      cases v with
      | task2 =>
          exact .setup (by rw [hc]; rfl) rfl (by rw [hc]; decide) fun _ h => (by cases h)
      | task4 =>
          exact .setup (by rw [hc]; rfl) rfl (by rw [hc]; decide) fun _ h => (by cases h)
  | remove =>
      simp only [hc, if_true, Option.some.injEq, Prod.mk.injEq] at hs
      obtain ⟨rfl, rfl⟩ := hs
      exact .setup (by rw [hc]; rfl) rfl (by rw [hc]; decide) fun _ h => (by cases h)
  | bind =>
      simp only [hc, if_true, Option.some.injEq, Prod.mk.injEq] at hs
      obtain ⟨rfl, rfl⟩ := hs
      exact .setup (by rw [hc]; rfl) rfl (by rw [hc]; decide) fun _ h => (by cases h)
  | recvfrom =>
      simp only [hc, if_true] at hs
      obtain ⟨⟨d, n⟩, hrecv, heq⟩ := Option.map_eq_some_iff.mp hs
      cases heq
      exact .receives h hc hrecv
  | convert j numBytes =>
      simp only [hc] at hs
      split at hs
      case isTrue hlt =>
        cases hs
        refine ⟨fun c => inTransit_congr rfl ?_, ?_, fun _ h => (by cases h)⟩
        · rw [Server.serves, Server.serves, hc]
        · rw [hc]
          refine Nat.add_lt_add_left (k := netWeight A.svaddr net) ?_
          show numBytes - (j + 1) + 3 < numBytes - j + 3
          omega
      case isFalse hge =>
        cases hs
        refine ⟨fun c => inTransit_congr rfl ?_, ?_, fun _ h => (by cases h)⟩
        · rw [Server.serves, Server.serves, hc]
        · rw [hc]
          refine Nat.add_lt_add_left (k := netWeight A.svaddr net) ?_
          show 2 < numBytes - j + 3
          omega
  | sendto numBytes =>
      simp only [hc, if_true] at hs
      cases hs
      exact .responds h hc
  | ended status => simp [hc] at hs

/-- What the client `c` makes of its datagrams if no call fails: nothing, it sends a message, or it
    receives the response. -/
inductive Moves (A : Addresses ι α) (argv : List CString) (c : ι)
    (net : Network α (List UInt8)) (cl : Client) :
    Network α (List UInt8) → Client → Prop where
  | quiet {cl' : Client} : cl.status argv = .idle → (cl'.status argv).due = 0 →
      cl'.ctrl.weight argv.length < cl.ctrl.weight argv.length → Moves A argv c net cl net cl'
  | asks {cl' : Client} {msg : List UInt8} : cl.status argv = .idle →
      cl'.status argv = .waiting msg →
      cl'.ctrl.weight argv.length + (BUF_SIZE + 5) < cl.ctrl.weight argv.length →
      Moves A argv c net cl (net.send ⟨A.claddr c, A.svaddr, msg⟩) cl'
  | hears {net' : Network α (List UInt8)} {cl' : Client} {d : Packet α (List UInt8)}
      {msg : List UInt8} : cl.status argv = .waiting msg → cl'.status argv = .idle →
      net.recv (A.claddr c) = some (d, net') →
      cl'.ctrl.weight argv.length < cl.ctrl.weight argv.length → Moves A argv c net cl net' cl'

variable {argv : List CString} {cl cl' : Client}

omit [DecidableEq α] in
/-- The client has sent all its messages. -/
theorem Follows.answered (h : Follows v argv cl) {j : Nat} (hc : cl.ctrl = .sendto j)
    (hnone : argv[j]? = none) : cl.log = responses v argv := by
  obtain ⟨k, hlog, hk⟩ := h.log
  rw [hc] at hk
  change j = v.firstMsg + k at hk
  subst hk
  have hlen := List.getElem?_eq_none_iff.mp hnone
  rw [hlog, List.take_of_length_le]
  rw [responses, List.length_mapIdx, List.length_drop]
  omega

/-- **A step of a client** without a failing call. -/
theorem Moves.of_step (hf : Follows v argv cl) (hd : cl.Decided v argv)
    (hs : clientStep v A.svaddr (A.claddr c) argv net cl true = some (net', cl')) :
    Moves A argv c net cl net' cl' ∧ cl'.Decided v argv := by
  have hidle : ∀ ctrl, cl.ctrl = ctrl → (∀ j, ctrl ≠ .recvfrom j) →
      (∀ status, ctrl ≠ .ended status) → cl.status argv = .idle := by
    intro ctrl hc hrecv hended
    rw [Client.status, hc]
    cases ctrl with
    | recvfrom j => exact absurd rfl (hrecv j)
    | ended status => exact absurd rfl (hended status)
    | _ => rfl
  unfold clientStep at hs
  unfold Client.Decided at hd
  cases hc : cl.ctrl with
  | usage =>
      have hidle := hidle _ hc (fun _ h => (by cases h)) fun _ h => (by cases h)
      simp only [hc] at hs
      split at hs
      case isTrue hwrong =>
        cases hs
        refine ⟨.quiet hidle rfl ?_, ?_⟩
        · rw [hc]
          exact Nat.succ_pos _
        · obtain ⟨k, hlog, hk⟩ := hf.log
          rw [hc] at hk
          change k = 0 at hk
          subst hk
          show Answered v argv _
          rw [Answered, if_pos (show WrongUsage v argv from hwrong)]
          refine ⟨rfl, hlog, ?_⟩
          rw [Client.fail, hc]
      case isFalse hright =>
        cases hs
        simp only [hc] at hd
        refine ⟨.quiet hidle rfl ?_, hright, hd⟩
        rw [hc]
        exact Nat.lt_succ_self _
  | socket =>
      have hidle := hidle _ hc (fun _ h => (by cases h)) fun _ h => (by cases h)
      simp only [hc, if_true, Option.some.injEq, Prod.mk.injEq] at hs hd
      obtain ⟨rfl, rfl⟩ := hs
      refine ⟨.quiet hidle rfl ?_, hd⟩
      rw [hc]
      exact Nat.lt_succ_self _
  | address =>
      have hidle := hidle _ hc (fun _ h => (by cases h)) fun _ h => (by cases h)
      simp only [hc, if_true, Option.some.injEq, Prod.mk.injEq] at hs hd
      obtain ⟨rfl, rfl⟩ := hs
      refine ⟨.quiet hidle rfl ?_, hd⟩
      rw [hc]
      show 20 * (argv.length - v.firstMsg) + 1 < 20 * argv.length + 2
      omega
  | sendto j =>
      have hidle := hidle _ hc (fun _ h => (by cases h)) fun _ h => (by cases h)
      simp only [hc] at hs hd
      cases hmsg : argv[j]? with
      | none =>
          simp only [hmsg, Option.some.injEq, Prod.mk.injEq] at hs
          obtain ⟨rfl, rfl⟩ := hs
          refine ⟨.quiet hidle rfl ?_, ?_⟩
          · rw [hc]
            exact Nat.succ_pos _
          · show Answered v argv _
            rw [Answered, if_neg hd.1]
            exact ⟨rfl, hf.answered hc hmsg, hd.2⟩
      | some msg =>
          simp only [hmsg, if_true] at hs
          cases hs
          refine ⟨.asks hidle (Client.status_waiting rfl hmsg) ?_, hd⟩
          have hlt := (List.getElem?_eq_some_iff.mp hmsg).1
          rw [hc]
          show 20 * (argv.length - j) - 16 + (10 + 5) < 20 * (argv.length - j) + 1
          omega
  | recvfrom j =>
      simp only [hc, if_true] at hs hd
      obtain ⟨msg, hmsg⟩ := hf.sent j hc
      obtain ⟨⟨d, n⟩, hrecv, heq⟩ := Option.map_eq_some_iff.mp hs
      cases heq
      refine ⟨.hears (Client.status_waiting hc hmsg) rfl hrecv ?_, hd⟩
      have hlt := (List.getElem?_eq_some_iff.mp hmsg).1
      rw [hc]
      show 20 * (argv.length - j) - 17 < 20 * (argv.length - j) - 16
      omega
  | log j numBytes =>
      have hidle := hidle _ hc (fun _ h => (by cases h)) fun _ h => (by cases h)
      simp only [hc] at hs hd
      obtain ⟨msg, hmsg, -⟩ := hf.told _ _ hc
      cases hs
      refine ⟨.quiet hidle rfl ?_, hd⟩
      have hlt := (List.getElem?_eq_some_iff.mp hmsg).1
      rw [hc]
      show 20 * (argv.length - (j + 1)) + 1 < 20 * (argv.length - j) - 17
      omega
  | ended status => simp [hc] at hs

/-- Every step of a client lowers the weight, that of a message it sends included. -/
theorem Moves.lowers (hm : Moves A argv c net cl net' cl') :
    netWeight A.svaddr net' + cl'.ctrl.weight argv.length
      < netWeight A.svaddr net + cl.ctrl.weight argv.length := by
  cases hm with
  | quiet hidle hdue hless => exact Nat.add_lt_add_left hless _
  | asks hidle hwait hless =>
      rw [netWeight, Network.weight_send, carrying, handling, if_pos rfl, netWeight]
      omega
  | hears hwait hidle hrecv hless =>
      have hweight := Network.weight_recv (f := carrying A.svaddr) (g := handling A.svaddr) hrecv
      have hdst := (Network.perm_recv hrecv).1
      have hne : _ ≠ A.svaddr := fun h => A.ne_svaddr c (hdst.symm.trans h)
      rw [handling, if_neg hne] at hweight
      rw [netWeight, netWeight]
      omega

variable [DecidableEq ι]

/-- The datagrams of the client that moves, and of the others. -/
theorem Moves.transit (hm : Moves A argv c net cl net' cl') (h : Held A w net server)
    (hexact : inTransit A c net server ≤ (cl.status argv).due) :
    (∀ c', c' ≠ c → inTransit A c' net' server = inTransit A c' net server) ∧
      inTransit A c net' server ≤ (cl'.status argv).due ∧
      (cl'.status argv).due - inTransit A c net' server
        = (cl.status argv).due - inTransit A c net server := by
  cases hm with
  | quiet hidle hdue hless =>
      rw [hidle, Status.due] at hexact
      rw [hidle, hdue, Status.due]
      exact ⟨fun _ _ => rfl, hexact, rfl⟩
  | @asks cl' msg hidle hwait hless =>
      have hcount : ∀ c', inTransit A c' (net.send ⟨A.claddr c, A.svaddr, msg⟩) server
          = inTransit A c' net server + if c' = c then 1 else 0 := by
        intro c'
        have hbelongs : Belongs A c' ⟨A.claddr c, A.svaddr, msg⟩ ↔ c' = c :=
          ⟨fun hb => A.injective (hb.resolve_right fun h => A.ne_svaddr c' h.symm).symm,
            fun hc => Or.inl (by rw [hc])⟩
        rw [inTransit, inTransit, Network.outstanding_send, Nat.add_right_comm]
        exact congrArg _ (if_congr hbelongs rfl rfl)
      rw [hidle, Status.due] at hexact
      rw [hidle, hwait, Status.due, Status.due, hcount, if_pos rfl]
      refine ⟨?_, by omega, by omega⟩
      intro c' hc
      rw [hcount, if_neg hc, Nat.add_zero]
  | @hears _ cl' d msg hwait hidle hrecv hless =>
      obtain ⟨hdst, hperm⟩ := Network.perm_recv hrecv
      obtain ⟨c₀, hg⟩ := h.genuine d (hperm.mem_iff.mpr List.mem_cons_self)
      have hc₀ : c = c₀ := hg.unique (Or.inr hdst)
      subst hc₀
      have hcount : ∀ c', inTransit A c' net server
          = inTransit A c' net' server + if c' = c then 1 else 0 := by
        intro c'
        have hbelongs : Belongs A c' d ↔ c' = c :=
          ⟨fun hb => hg.unique hb, fun hc => Or.inr (by rw [hc]; exact hdst)⟩
        rw [inTransit, inTransit, Network.outstanding_recv hrecv, Nat.add_right_comm]
        exact congrArg _ (if_congr hbelongs rfl rfl)
      rw [hwait, Status.due, hcount, if_pos rfl] at hexact
      rw [hwait, hidle, Status.due, Status.due, hcount c, if_pos rfl]
      refine ⟨?_, by omega, by omega⟩
      intro c' hc
      rw [hcount c', if_neg hc, Nat.add_zero]

/-! ## The whole system -/

variable {argv : ι → List CString} {s s' : State ι α}

/-- The datagrams lost for a client, which waits for one of them. -/
def State.lost (A : Addresses ι α) (argv : ι → List CString) (s : State ι α) (c : ι) : Nat :=
  (s.status argv c).due - inTransit A c s.net s.server

def State.weight [Fintype ι] (A : Addresses ι α) (argv : ι → List CString) (s : State ι α) : Nat :=
  (Finset.univ.sum fun c => (s.client c).ctrl.weight (argv c).length) + netWeight A.svaddr s.net
    + s.server.ctrl.weight

/-- **The invariant** of the runs in which no call fails. -/
structure CalmInv (v : Version) (A : Addresses ι α) (argv : ι → List CString)
    (s : State ι α) : Prop where
  inv     : Inv v A argv s
  exact   : ∀ c, inTransit A c s.net s.server ≤ (s.status argv c).due
  runs    : ∀ status, s.server.ctrl ≠ .ended status
  decided : ∀ c, (s.client c).Decided v (argv c)

omit [DecidableEq ι] in
theorem CalmInv.fresh (v : Version) (A : Addresses ι α) (argv : ι → List CString)
    (buf : List UInt8) (claddr : α) (resp : ι → List UInt8) :
    CalmInv v A argv (.fresh buf claddr resp) where
  inv     := .fresh v A argv buf claddr resp
  exact   := fun _ => Nat.le_refl 0
  runs    := fun _ h => (by cases h)
  decided := fun _ => rfl

/-- What a step without a failing call keeps, and what it changes. -/
structure CalmStep [Fintype ι] (v : Version) (A : Addresses ι α) (argv : ι → List CString)
    (s : State ι α) (a : Act ι) (s' : State ι α) : Prop where
  inv    : CalmInv v A argv s'
  lowers : s'.weight A argv < s.weight A argv
  lost   : Finset.univ.sum (s'.lost A argv)
    = Finset.univ.sum (s.lost A argv) + if a.loses then 1 else 0

omit [DecidableEq ι] in
/-- Only the network has changed, and of each client as much is on its way as before. -/
theorem CalmInv.carried [Fintype ι] {a : Act ι} (h : CalmInv v A argv s)
    (hinv : Inv v A argv { s with net := net' })
    (htransit : ∀ c, inTransit A c net' s.server = inTransit A c s.net s.server)
    (hless : netWeight A.svaddr net' < netWeight A.svaddr s.net) (ha : a.loses = false) :
    CalmStep v A argv s a { s with net := net' } where
  inv :=
    { inv     := hinv
      exact   := fun c => (htransit c).le.trans (h.exact c)
      runs    := h.runs
      decided := h.decided }
  lowers := Nat.add_lt_add_right (Nat.add_lt_add_left hless _) _
  lost := by
    rw [ha]
    refine Finset.sum_congr rfl fun c _ => ?_
    exact congrArg (Status.due _ - ·) (htransit c)

/-- A client takes a step. -/
theorem CalmInv.client [Fintype ι] (h : CalmInv v A argv s) {c : ι} {ok : Bool}
    (hcalm : Calm v s (.client c ok)) (hs : step v A argv s (.client c ok) = some s') :
    CalmStep v A argv s (.client c ok) s' := by
  have hinv := h.inv.step hs
  obtain ⟨rfl, -⟩ := hcalm
  obtain ⟨⟨net', cl'⟩, hstep, heq⟩ := Option.map_eq_some_iff.mp hs
  cases heq
  obtain ⟨hm, hdecided⟩ := Moves.of_step (h.inv.follows c) (h.decided c) hstep
  obtain ⟨hothers, hexact, hlost⟩ := hm.transit h.inv.held (h.exact c)
  have hself : Function.update s.client c cl' c = cl' := Function.update_self ..
  have hother : ∀ c', c' ≠ c → Function.update s.client c cl' c' = s.client c' :=
    fun c' hc => Function.update_of_ne hc ..
  refine ⟨⟨hinv, ?_, h.runs, ?_⟩, ?_, ?_⟩
  · intro c'
    show inTransit A c' net' s.server
      ≤ ((Function.update s.client c cl' c').status (argv c')).due
    by_cases hc : c' = c
    · subst hc
      rwa [hself]
    · rw [hother c' hc, hothers c' hc]
      exact h.exact c'
  · intro c'
    show (Function.update s.client c cl' c').Decided v (argv c')
    by_cases hc : c' = c
    · subst hc
      rwa [hself]
    · rw [hother c' hc]
      exact h.decided c'
  · have hsum := sum_replace
      (f := fun c' => (Function.update s.client c cl' c').ctrl.weight (argv c').length)
      (g := fun c' => (s.client c').ctrl.weight (argv c').length) c
      fun c' hc => by rw [hother c' hc]
    have hlowers := hm.lowers
    rw [hself] at hsum
    show State.weight A argv ⟨net', s.server, Function.update s.client c cl'⟩ < s.weight A argv
    simp only [State.weight]
    omega
  · refine Finset.sum_congr rfl fun c' _ => ?_
    show ((Function.update s.client c cl' c').status (argv c')).due - inTransit A c' net' s.server
      = s.lost A argv c'
    by_cases hc : c' = c
    · subst hc
      rw [hself]
      exact hlost
    · rw [hother c' hc, hothers c' hc]
      rfl

/-- The network loses a datagram, of a client that waits for it. -/
theorem CalmInv.drops [Fintype ι] (h : CalmInv v A argv s) {i : Nat}
    (hs : step v A argv s (.drop i) = some s') : CalmStep v A argv s (.drop i) s' := by
  have hinv := h.inv.step hs
  obtain ⟨net', hdrop, heq⟩ := Option.map_eq_some_iff.mp hs
  cases heq
  obtain ⟨d, hd, hcount⟩ := Network.outstanding_lost hdrop
  obtain ⟨c, hg⟩ := h.inv.held.genuine d (List.mem_append_left _ hd)
  have hb : Belongs A c d := hg.imp And.left fun hto => hto.2.1
  have htransit : ∀ c', inTransit A c' s.net s.server
      = inTransit A c' net' s.server + if c' = c then 1 else 0 := by
    intro c'
    have hbelongs : Belongs A c' d ↔ c' = c := ⟨hg.unique, fun hc => hc ▸ hb⟩
    rw [inTransit, inTransit, hcount, Nat.add_right_comm]
    exact congrArg _ (if_congr hbelongs rfl rfl)
  refine ⟨⟨hinv, ?_, h.runs, h.decided⟩, ?_, ?_⟩
  · intro c'
    refine le_trans ?_ (h.exact c')
    rw [htransit c']
    exact Nat.le_add_right ..
  · obtain ⟨d', hweight⟩ := Network.weight_drop (f := carrying A.svaddr)
      (g := handling A.svaddr) hdrop
    refine Nat.add_lt_add_right (Nat.add_lt_add_left ?_ _) _
    rw [carrying] at hweight
    show netWeight A.svaddr net' < netWeight A.svaddr s.net
    rw [netWeight, netWeight]
    omega
  · have hsum := sum_replace (f := State.lost A argv { s with net := net' })
      (g := s.lost A argv) c fun c' hc => by
        show _ - inTransit A c' net' s.server = _ - inTransit A c' s.net s.server
        rw [htransit c', if_neg hc]
        rfl
    have hexact := h.exact c
    have hlost : s.lost A argv c = (s.status argv c).due - inTransit A c s.net s.server := rfl
    have hlost' : State.lost A argv { s with net := net' } c
        = (s.status argv c).due - inTransit A c net' s.server := rfl
    have hc := htransit c
    rw [if_pos rfl] at hc
    rw [Act.loses, if_pos rfl]
    omega

/-- **One step** without a failing call. -/
theorem CalmInv.step [Fintype ι] {a : Act ι} (h : CalmInv v A argv s) (hcalm : Calm v s a)
    (hs : UpperCase.step v A argv s a = some s') : CalmStep v A argv s a s' := by
  cases a with
  | client c ok => exact h.client hcalm hs
  | server ok =>
      have hinv := h.inv.step hs
      change ok = true at hcalm
      subst hcalm
      obtain ⟨⟨net', server'⟩, hstep, heq⟩ := Option.map_eq_some_iff.mp hs
      cases heq
      have hp := Proceeds.of_step h.inv.held hstep
      refine ⟨⟨hinv, ?_, hp.runs, h.decided⟩, ?_, ?_⟩
      · exact fun c => (hp.transit c).le.trans (h.exact c)
      · have hless := hp.weight
        show State.weight A argv ⟨net', server', s.client⟩ < s.weight A argv
        simp only [State.weight]
        omega
      · refine Finset.sum_congr rfl fun c _ => ?_
        exact congrArg (Status.due _ - ·) (hp.transit c)
  | deliver i =>
      have hinv := h.inv.step hs
      obtain ⟨net', hdeliver, heq⟩ := Option.map_eq_some_iff.mp hs
      cases heq
      refine h.carried hinv ?_ ?_ rfl
      · intro c
        rw [inTransit, inTransit, Network.outstanding_deliver hdeliver]
      · obtain ⟨d, hweight⟩ := Network.weight_deliver (f := carrying A.svaddr)
          (g := handling A.svaddr) hdeliver
        rw [carrying] at hweight
        rw [netWeight, netWeight]
        omega
  | drop i => exact h.drops hs

/-! ## When nothing moves -/

omit [DecidableEq ι] in
/-- A server that cannot move waits for a request. -/
theorem serverStep_eq_none (hruns : ∀ status, server.ctrl ≠ .ended status)
    (h : serverStep v A.svaddr net server true = none) :
    server.ctrl = .recvfrom ∧ net.recv A.svaddr = none := by
  unfold serverStep at h
  cases hc : server.ctrl with
  | recvfrom =>
      simp only [hc, if_true] at h
      exact ⟨rfl, Option.map_eq_none_iff.mp h⟩
  | ended status => exact absurd hc (hruns status)
  | convert j numBytes =>
      simp only [hc] at h
      split at h
      · cases h
      · cases h
  | _ =>
      simp only [hc] at h
      cases h

omit [DecidableEq ι] in
/-- A client that cannot move has ended or waits for the response. -/
theorem clientStep_eq_none {argv : List CString} {cl : Client}
    (h : clientStep v A.svaddr (A.claddr c) argv net cl true = none) :
    (∃ status, cl.ctrl = .ended status) ∨
      ∃ j, cl.ctrl = .recvfrom j ∧ net.recv (A.claddr c) = none := by
  unfold clientStep at h
  cases hc : cl.ctrl with
  | usage =>
      simp only [hc] at h
      split at h
      · cases h
      · cases h
  | sendto j =>
      simp only [hc] at h
      split at h
      · cases h
      · cases h
  | recvfrom j =>
      simp only [hc, if_true] at h
      exact Or.inr ⟨j, rfl, Option.map_eq_none_iff.mp h⟩
  | ended status => exact Or.inl ⟨status, rfl⟩
  | _ =>
      simp only [hc] at h
      cases h

/-- Then nothing is on its way, and a client has ended or waits. -/
theorem CalmInv.stuck (h : CalmInv v A argv s)
    (hstuck : Stuck (UpperCase.step v A argv) (Calm v) s) (c : ι) :
    inTransit A c s.net s.server = 0 ∧
      ((∃ status, (s.client c).ctrl = .ended status) ∨ ∃ j, (s.client c).ctrl = .recvfrom j) := by
  obtain ⟨hserver, hnoRequest⟩ :=
    serverStep_eq_none h.runs (Option.map_eq_none_iff.mp (hstuck (.server true) rfl))
  have hclient : ∀ c, (∃ status, (s.client c).ctrl = .ended status) ∨
      ∃ j, (s.client c).ctrl = .recvfrom j ∧ s.net.recv (A.claddr c) = none := by
    intro c
    have hcalm : Calm v s (.client c true) := ⟨rfl, fun _ _ => by rw [hserver]; rfl⟩
    exact clientStep_eq_none (Option.map_eq_none_iff.mp (hstuck (.client c true) hcalm))
  have hflying : s.net.flying = [] :=
    Network.flying_eq_nil fun i => Option.map_eq_none_iff.mp (hstuck (.deliver i) trivial)
  -- what has arrived would be received
  have hnothing : ∀ d, d ∉ s.net.all := by
    intro d hd
    obtain ⟨c, hg⟩ := h.inv.held.genuine d hd
    rw [Network.all, hflying, List.nil_append] at hd
    rcases hg with ⟨-, hdst, -⟩ | ⟨-, hdst, -⟩
    · exact Network.recv_eq_none hnoRequest hd hdst
    · rcases hclient c with ⟨status, hended⟩ | ⟨j, -, hnoResponse⟩
      · have hexact := h.exact c
        rw [State.status, Client.status, hended] at hexact
        have hzero : s.net.outstanding (Belongs A c) = 0 :=
          Nat.le_zero.mp ((Nat.le_add_right _ _).trans hexact)
        exact Network.outstanding_eq_zero hzero (List.mem_append_right _ hd) (Or.inr hdst)
      · exact Network.recv_eq_none hnoResponse hd hdst
  refine ⟨?_, (hclient c).imp_right fun hwait => hwait.imp fun _ => And.left⟩
  rw [inTransit_free (not_serves (s := s.server) (by rw [hserver]; rfl))]
  exact List.countP_eq_zero.mpr fun d hd => absurd hd (hnothing d)

/-- **WHO IS ANSWERED.**  As long as no call fails, the programs take a bounded number of steps,
    whatever the order; when nothing moves any more, as many clients still wait for a response as
    datagrams are lost, and every other has logged the responses to all its messages, or has logged
    its usage and nothing else. -/
theorem lost_or_answered [Fintype ι] {buf : List UInt8} {claddr : α} {resp : ι → List UInt8}
    {as : List (Act ι)}
    (h : runWhen (UpperCase.step v A argv) (Calm v) (.fresh buf claddr resp) as = some s) :
    as.length ≤ (Finset.univ.sum fun c => 20 * (argv c).length + 4) + 3 ∧
    (Stuck (UpperCase.step v A argv) (Calm v) s →
      (∀ c, Answered v (argv c) (s.client c) ∨ ∃ j, (s.client c).ctrl = .recvfrom j) ∧
      (Finset.univ.filter fun c => ¬ Answered v (argv c) (s.client c)).card
        = as.countP Act.loses) := by
  have hfresh := CalmInv.fresh v A argv buf claddr resp
  refine ⟨?_, fun hstuck => ?_⟩
  · have hlen := length_le_of_runWhen (CalmInv v A argv) (State.weight A argv)
      (fun _ _ _ h hcalm hs => (h.step hcalm hs).inv)
      (fun _ _ _ h hcalm hs => (h.step hcalm hs).lowers) hfresh h
    have hweight : (State.fresh buf claddr resp).weight A argv
        = (Finset.univ.sum fun c => 20 * (argv c).length + 4) + 3 := rfl
    omega
  · have hI : CalmInv v A argv s := (reach_of_runWhen h).invariant hfresh
      fun _ _ _ h hcalm hs => (h.step hcalm hs).inv
    have hanswered : ∀ c, Answered v (argv c) (s.client c) ∧ s.lost A argv c = 0 ∨
        (¬ Answered v (argv c) (s.client c) ∧ s.lost A argv c = 1) ∧
          ∃ j, (s.client c).ctrl = .recvfrom j := by
      intro c
      obtain ⟨hzero, hend⟩ := hI.stuck hstuck c
      rw [State.lost, hzero]
      rcases hend with ⟨status, hc⟩ | ⟨j, hc⟩
      · have hdecided := hI.decided c
        rw [Client.Decided, hc] at hdecided
        rw [State.status, Client.status, hc]
        exact Or.inl ⟨hdecided, rfl⟩
      · obtain ⟨msg, hmsg⟩ := (hI.inv.follows c).sent j hc
        rw [State.status, Client.status_waiting hc hmsg]
        refine Or.inr ⟨⟨?_, rfl⟩, j, hc⟩
        intro hdone
        rw [Answered, hc] at hdone
        split at hdone
        · cases hdone.1
        · cases hdone.1
    refine ⟨fun c => (hanswered c).imp And.left And.right, ?_⟩
    have htally := tally_of_runWhen (CalmInv v A argv)
      (fun s => Finset.univ.sum (s.lost A argv)) Act.loses
      (fun _ _ _ h hcalm hs => (h.step hcalm hs).inv)
      (fun _ _ _ h hcalm hs => (h.step hcalm hs).lost) hfresh h
    have hnone : Finset.univ.sum (State.lost A argv (State.fresh buf claddr resp)) = 0 :=
      Finset.sum_eq_zero fun c _ => rfl
    rw [hnone, Nat.zero_add] at htally
    rw [Finset.card_filter, ← htally]
    refine Finset.sum_congr rfl fun c _ => ?_
    rcases hanswered c with ⟨hyes, hlost⟩ | ⟨⟨hno, hlost⟩, -⟩
    · rw [if_neg (not_not_intro hyes), hlost]
    · rw [if_pos hno, hlost]

/-- Both clients send before the server is bound; the request of one is lost, the other one is
    answered. -/
def lostRequest : List (Act Bool) :=
  List.replicate 4 (.client false true) ++ List.replicate 4 (.client true true)
    ++ List.replicate 2 (.server true) ++ [.drop 1, .deliver 0] ++ List.replicate 6 (.server true)
    ++ [.deliver 0] ++ List.replicate 3 (.client false true)

/-- The theorem for that run. -/
theorem lost_or_answered_one : ∃ s,
    runWhen (UpperCase.step .task2 twoClients twoArgv) (Calm .task2) (.fresh [] none fun _ => [])
      lostRequest = some s ∧
    Stuck (UpperCase.step .task2 twoClients twoArgv) (Calm .task2) s ∧
    (Finset.univ.filter fun c => ¬ Answered .task2 (twoArgv c) (s.client c)).card = 1 := by
  obtain ⟨s, hs, hf⟩ := Option.map_eq_some_iff.mp
    (show (runWhen (UpperCase.step .task2 twoClients twoArgv) (Calm .task2)
          (.fresh [] none fun _ => []) lostRequest).map
        (fun s => (s.server.ctrl, (s.client false).ctrl, (s.client true).ctrl,
          s.net.flying.isEmpty, s.net.arrived.isEmpty))
      = some (.recvfrom, .ended EXIT_SUCCESS, .recvfrom 2, true, true) by decide +kernel)
  simp only [Prod.mk.injEq, List.isEmpty_iff] at hf
  obtain ⟨hserver, hfalse, htrue, hflying, harrived⟩ := hf
  have hnone : ∀ a, s.net.recv a = none := by
    intro a
    rw [Network.recv, harrived]
    rfl
  have hstuck : Stuck (UpperCase.step .task2 twoClients twoArgv) (Calm .task2) s := by
    intro a hcalm
    cases a with
    | client c ok =>
        obtain ⟨rfl, -⟩ := hcalm
        cases c <;> simp [UpperCase.step, clientStep, hfalse, htrue, hnone]
    | server ok =>
        cases hcalm
        simp [UpperCase.step, serverStep, hserver, hnone]
    | deliver i => simp [UpperCase.step, Network.deliver, hflying]
    | drop i => simp [UpperCase.step, Network.drop, hflying]
  exact ⟨s, hs, hstuck, ((lost_or_answered hs).2 hstuck).2⟩

end UpperCase
