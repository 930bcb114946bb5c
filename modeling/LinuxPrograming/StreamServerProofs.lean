import LinuxPrograming.TransitionProofs
import LinuxPrograming.ByteStreamProofs

/-!
# The iterative stream server (`6-Socket/task3/server.c`)

The server accepts one connection at a time and copies it to its standard output until
end-of-file.  A step is one system call of the server, with the value it returns, or one thing a
peer does to its connection; peers are arbitrary programs here.

* **`serverStep`** is the program, error exits included; the return value `ret` of the next call
  is part of the action and a value the call cannot return blocks the step.
* **`Served`** says once what a step does when no call fails.
* **`SiteInv.served`**, **`SiteInv.peer`** — the bytes written for a connection, followed by those
  in the server's buffer, are what the server has received from that connection.
-/

namespace StreamUnix

open Transition

def BUF_SIZE : Nat := 100

/-! ## The server and its connections -/

/-- The values of `errno` the server tells apart. -/
inductive Errno where
  | ENOENT
  | other
deriving DecidableEq

/-- Where the server is: before the system call that its control point names. -/
inductive ServerCtrl (ι : Type) where
  | socket
  | remove
  | bind
  | listen
  | accept
  | read (cfd : ι)
  | write (cfd : ι) (buf : List UInt8)
  | close (cfd : ι)
  | exit

/-- The server and the peers `ι` that may connect to it, each at most once.  `pending` holds the
    connections waiting to be accepted; a full backlog only delays a peer.  In `stdout` each byte
    is tagged (ghost) with the connection it was read from, and `accepted` (ghost) is the order in
    which connections were accepted. -/
structure Site (ι : Type) where
  conn     : ι → ByteStream UInt8
  pending  : List ι
  accepted : List ι
  server   : ServerCtrl ι
  stdout   : List (ι × UInt8)

variable {ι : Type} [DecidableEq ι]

/-- The next system call of the server returns `ret`. -/
def serverStep (s : Site ι) (ret : Int) (errno : Errno) : Option (Site ι) :=
  match s.server with
  | .socket => some { s with server := if ret = -1 then .exit else .remove }
  | .remove => some { s with server := if ret = -1 ∧ errno ≠ .ENOENT then .exit else .bind }
  | .bind   => some { s with server := if ret = -1 then .exit else .listen }
  | .listen => some { s with server := if ret = -1 then .exit else .accept }
  | .accept =>
      if ret = -1 then some { s with server := .exit }
      else match s.pending with
        | []        => none
        | p :: rest =>
            some { s with pending := rest, accepted := s.accepted ++ [p], server := .read p }
  | .read cfd =>
      let n := ret.toNat
      if 0 < ret then
        if n ≤ BUF_SIZE ∧ n ≤ (s.conn cfd).inflight.length then
          some { s with conn := Function.update s.conn cfd ((s.conn cfd).receive n)
                        server := .write cfd ((s.conn cfd).inflight.take n) }
        else none
      else if ret = 0 then
        -- end-of-file
        if (s.conn cfd).inflight = [] ∧ (s.conn cfd).shut = true then
          some { s with server := .close cfd }
        else none
      else if ret = -1 then some { s with server := .exit }
      else none
  | .write cfd buf =>
      if -1 ≤ ret ∧ ret ≤ buf.length then
        some { s with stdout := s.stdout ++ (buf.take ret.toNat).map fun b => (cfd, b)
                      server := if ret ≠ buf.length then .exit else .read cfd }
      else none
  | .close _ => some { s with server := if ret = -1 then .exit else .accept }
  | .exit    => none

/-- The server accepts connections from now on. -/
def ServerCtrl.listening : ServerCtrl ι → Bool
  | .accept | .read _ | .write _ _ | .close _ => true
  | _ => false

/-- What a peer does to its connection. -/
inductive PeerOp where
  | connect
  | send (bs : List UInt8)
  | shut

/-- The peer `p` has a connection. -/
def Site.connected (s : Site ι) (p : ι) : Prop := p ∈ s.pending ∨ p ∈ s.accepted

instance (s : Site ι) (p : ι) : Decidable (s.connected p) :=
  inferInstanceAs (Decidable (p ∈ s.pending ∨ p ∈ s.accepted))

/-- A successful operation of peer `p`. -/
def peerStep (s : Site ι) (p : ι) : PeerOp → Option (Site ι)
  | .connect =>
      if s.server.listening = true ∧ ¬ s.connected p then
        some { s with pending := s.pending ++ [p] }
      else none
  | .send bs =>
      if s.connected p ∧ (s.conn p).shut = false then
        some { s with conn := Function.update s.conn p ((s.conn p).send bs) }
      else none
  | .shut =>
      if s.connected p then some { s with conn := Function.update s.conn p (s.conn p).close }
      else none

/-- Nothing has happened yet. -/
def Site.opening : Site ι := ⟨fun _ => .fresh, [], [], .socket, []⟩

/-- The next call of the server succeeds; a short write counts as a failure, as in the code. -/
def ServerCtrl.Succeeds (ret : Int) (errno : Errno) : ServerCtrl ι → Prop
  | .remove      => ret ≠ -1 ∨ errno = .ENOENT
  | .write _ buf => ret = buf.length
  | _            => ret ≠ -1

instance (ret : Int) (errno : Errno) (c : ServerCtrl ι) : Decidable (c.Succeeds ret errno) := by
  cases c <;> unfold ServerCtrl.Succeeds <;> infer_instance

/-! ## What a step does when no call fails -/

/-- The connection the server is busy with. -/
def ServerCtrl.serving : ServerCtrl ι → Option ι
  | .read cfd | .write cfd _ | .close cfd => some cfd
  | _ => none

/-- The server's calls up to the next `accept`, if nothing more is read. -/
def ServerCtrl.weight : ServerCtrl ι → Nat
  | .socket    => 4
  | .remove    => 3
  | .bind      => 2
  | .listen    => 1
  | .read _    => 2
  | .write _ _ => 3
  | .close _   => 1
  | .accept | .exit => 0

/-- The bytes in the server's buffer that belong to connection `p`. -/
def ServerCtrl.held (p : ι) : ServerCtrl ι → List UInt8
  | .write cfd buf => if cfd = p then buf else []
  | _ => []

/-- A successful step of the server. -/
inductive Served (s : Site ι) : Site ι → Prop where
  | setup (c : ServerCtrl ι) : s.server.listening = false → s.server ≠ .exit → c ≠ .exit →
      c.serving = none → c.weight < s.server.weight → Served s { s with server := c }
  | accept (p : ι) (rest : List ι) : s.server = .accept → s.pending = p :: rest →
      Served s { s with pending := rest, accepted := s.accepted ++ [p], server := .read p }
  | read (cfd : ι) (n : Nat) : s.server = .read cfd → 0 < n → n ≤ (s.conn cfd).inflight.length →
      Served s { s with conn := Function.update s.conn cfd ((s.conn cfd).receive n)
                        server := .write cfd ((s.conn cfd).inflight.take n) }
  | eof (cfd : ι) : s.server = .read cfd → (s.conn cfd).inflight = [] →
      (s.conn cfd).shut = true → Served s { s with server := .close cfd }
  | write (cfd : ι) (buf : List UInt8) : s.server = .write cfd buf →
      Served s { s with stdout := s.stdout ++ buf.map fun b => (cfd, b), server := .read cfd }
  | close (cfd : ι) : s.server = .close cfd → Served s { s with server := .accept }

/-- **What a successful step of the server does.** -/
theorem served_of_step {s s' : Site ι} {ret : Int} {errno : Errno}
    (h : serverStep s ret errno = some s') (hok : s.server.Succeeds ret errno) : Served s s' := by
  rw [serverStep] at h
  cases hc : s.server with
  | socket | bind | listen =>
      rw [hc] at h hok
      simp only [show ret ≠ -1 from hok, if_false, Option.some.injEq] at h
      subst h
      exact .setup _ (by rw [hc]; rfl) (by simp [hc]) (by simp) rfl
        (by simp [hc, ServerCtrl.weight])
  | remove =>
      rw [hc] at h hok
      have hno : ¬ (ret = -1 ∧ errno ≠ .ENOENT) := fun hbad => hok.elim (· hbad.1) (hbad.2 ·)
      simp only [if_neg hno, Option.some.injEq] at h
      subst h
      exact .setup _ (by rw [hc]; rfl) (by simp [hc]) (by simp) rfl
        (by simp [hc, ServerCtrl.weight])
  | accept =>
      rw [hc] at h hok
      simp only [show ret ≠ -1 from hok, if_false] at h
      cases hp : s.pending with
      | nil => rw [hp] at h; cases h
      | cons p rest => rw [hp] at h; cases h; exact .accept p rest hc hp
  | read cfd =>
      rw [hc] at h hok
      simp only at h
      by_cases hpos : 0 < ret
      · by_cases hn : ret.toNat ≤ BUF_SIZE ∧ ret.toNat ≤ (s.conn cfd).inflight.length
        · rw [if_pos hpos, if_pos hn] at h
          cases h
          exact .read cfd ret.toNat hc (by omega) hn.2
        · rw [if_pos hpos, if_neg hn] at h
          cases h
      · rw [if_neg hpos] at h
        by_cases hzero : ret = 0
        · by_cases heof : (s.conn cfd).inflight = [] ∧ (s.conn cfd).shut = true
          · rw [if_pos hzero, if_pos heof] at h
            cases h
            exact .eof cfd hc heof.1 heof.2
          · rw [if_pos hzero, if_neg heof] at h
            cases h
        · rw [if_neg hzero, if_neg (show ret ≠ -1 from hok)] at h
          cases h
  | write cfd buf =>
      rw [hc] at h hok
      have hret : ret = buf.length := hok
      subst hret
      simp only [Int.toNat_natCast, List.take_length, ne_eq, not_true_eq_false, if_false] at h
      rw [if_pos (by omega)] at h
      cases h
      exact .write cfd buf hc
  | close cfd =>
      rw [hc] at h hok
      simp only [show ret ≠ -1 from hok, if_false, Option.some.injEq] at h
      subst h
      exact .close cfd hc
  | exit => rw [hc] at h; cases h

/-! ## The invariant of the server -/

/-- The bytes written to standard output for connection `p`, in order. -/
def Site.writtenFor (s : Site ι) (p : ι) : List UInt8 :=
  (s.stdout.filter fun b => b.1 = p).map Prod.snd

/-- **The invariant of a server whose calls succeed.** -/
structure SiteInv (s : Site ι) : Prop where
  running : s.server ≠ .exit
  once    : (s.accepted ++ s.pending).Nodup
  serving : ∀ p, s.server.serving = some p → p ∈ s.accepted
  copied  : ∀ p, s.writtenFor p ++ s.server.held p = (s.conn p).received
  done    : ∀ p, p ∈ s.accepted → s.server.serving ≠ some p →
    (s.conn p).inflight = [] ∧ (s.conn p).shut = true
  closing : ∀ p, s.server = .close p → (s.conn p).inflight = [] ∧ (s.conn p).shut = true
  silent  : ∀ p, ¬ s.connected p → s.conn p = .fresh

theorem SiteInv.opening : SiteInv (Site.opening (ι := ι)) where
  running := fun h => by cases h
  once    := List.nodup_nil
  serving := fun _ h => by cases h
  copied  := fun _ => rfl
  done    := fun _ h => by cases h
  closing := fun _ h => by cases h
  silent  := fun _ _ => rfl

/-- What a write adds to the output of each connection. -/
theorem writtenFor_write (s : Site ι) (cfd p : ι) (buf : List UInt8) (c : ServerCtrl ι) :
    { s with stdout := s.stdout ++ buf.map fun b => (cfd, b), server := c }.writtenFor p
      = s.writtenFor p ++ if cfd = p then buf else [] := by
  simp only [Site.writtenFor, List.filter_append, List.map_append]
  congr 1
  by_cases h : cfd = p
  · rw [if_pos h, List.filter_eq_self.mpr (by simp [h]), List.map_map]
    exact List.map_id _
  · have hnone : (buf.map fun b => (cfd, b)).filter (fun b => b.1 = p) = [] := by
      refine List.filter_eq_nil_iff.mpr ?_
      intro b hb
      obtain ⟨x, -, rfl⟩ := List.mem_map.mp hb
      simpa using h
    rw [if_neg h, hnone]
    rfl

theorem ServerCtrl.held_eq_nil {c : ServerCtrl ι} {p : ι} (h : c.serving ≠ some p) :
    c.held p = [] := by
  cases c with
  | write cfd buf => exact if_neg fun heq => h (congrArg some heq)
  | _ => rfl

/-- The server goes on to `c` with the connections as they are: it serves no other one, and one that
    it leaves has been read to the end. -/
theorem SiteInv.goto {s : Site ι} {c : ServerCtrl ι} {out : List (ι × UInt8)} (hI : SiteInv s)
    (hrunning : c ≠ .exit) (hserving : ∀ p, c.serving = some p → s.server.serving = some p)
    (hcopied : ∀ p, { s with stdout := out, server := c }.writtenFor p ++ c.held p
      = s.writtenFor p ++ s.server.held p)
    (hleft : ∀ p, s.server.serving = some p → c.serving ≠ some p →
      (s.conn p).inflight = [] ∧ (s.conn p).shut = true)
    (hclosing : ∀ p, c = .close p → (s.conn p).inflight = [] ∧ (s.conn p).shut = true) :
    SiteInv { s with stdout := out, server := c } where
  running := hrunning
  once    := hI.once
  serving := fun p hp => hI.serving p (hserving p hp)
  copied  := fun p => (hcopied p).trans (hI.copied p)
  done    := by
    intro p hp hne
    by_cases hs : s.server.serving = some p
    · exact hleft p hs hne
    · exact hI.done p hp hs
  closing := hclosing
  silent  := hI.silent

/-- A connection moves from the pending ones to the accepted ones. -/
theorem SiteInv.accept {s : Site ι} {q : ι} {rest : List ι} (hI : SiteInv s)
    (hs : s.server = .accept) (hpend : s.pending = q :: rest) :
    SiteInv { s with pending := rest, accepted := s.accepted ++ [q], server := .read q } := by
  refine ⟨fun h => (by cases h), ?_, ?_, ?_, ?_, fun p hp => (by cases hp), ?_⟩
  · have honce := hI.once
    rw [hpend] at honce
    simpa [List.append_assoc] using honce
  · intro p hp
    cases hp
    exact List.mem_append_right _ (List.mem_singleton_self _)
  · intro p
    have hcopied := hI.copied p
    rw [hs] at hcopied
    exact hcopied
  · intro p hp hne
    rcases List.mem_append.mp hp with hp | hp
    · exact hI.done p hp (by rw [hs]; exact fun h => by cases h)
    · rw [List.mem_singleton.mp hp] at hne
      exact absurd rfl hne
  · intro p hp
    refine hI.silent p fun hconn => hp ?_
    rcases hconn with hpnd | hacc
    · rw [hpend] at hpnd
      rcases List.mem_cons.mp hpnd with rfl | hrest
      · exact Or.inr (List.mem_append_right _ (List.mem_singleton_self _))
      · exact Or.inl hrest
    · exact Or.inr (List.mem_append_left _ hacc)

/-- A chunk moves from its connection into the buffer. -/
theorem SiteInv.read {s : Site ι} {cfd : ι} (n : Nat) (hI : SiteInv s)
    (hs : s.server = .read cfd) :
    SiteInv { s with conn := Function.update s.conn cfd ((s.conn cfd).receive n)
                     server := .write cfd ((s.conn cfd).inflight.take n) } := by
  have hserving : s.server.serving = some cfd := by rw [hs]; rfl
  have hcfd : cfd ∈ s.accepted := hI.serving cfd hserving
  refine ⟨fun h => (by cases h), hI.once, ?_, ?_, ?_, fun p hp => (by cases hp), ?_⟩
  · intro p hp
    cases hp
    exact hcfd
  · intro p
    have hcopied := hI.copied p
    rw [hs] at hcopied
    by_cases h : p = cfd
    · subst h
      simp only [Function.update_self, ServerCtrl.held, if_true]
      rw [ByteStream.received_receive, ← hcopied]
      simp [ServerCtrl.held, Site.writtenFor]
    · simp only [Function.update_of_ne h, ServerCtrl.held, if_neg (Ne.symm h)]
      exact hcopied
  · intro p hp hne
    have hne' : p ≠ cfd := fun h => hne (congrArg some h.symm)
    simp only [Function.update_of_ne hne']
    exact hI.done p hp (by rw [hserving]; exact fun h => hne' (Option.some.inj h).symm)
  · intro p hp
    have hne : p ≠ cfd := fun h => hp (Or.inr (h ▸ hcfd))
    simp only [Function.update_of_ne hne]
    exact hI.silent p hp

/-- **A successful step of the server keeps the invariant.** -/
theorem SiteInv.served {s s' : Site ι} (hI : SiteInv s) (h : Served s s') : SiteInv s' := by
  cases h with
  | setup c hlisten _ hc hserving _ =>
      have hnone : s.server.serving = none := by
        cases hs : s.server <;> rw [hs] at hlisten <;> first | rfl | cases hlisten
      refine hI.goto hc ?_ ?_ ?_ ?_
      · intro p hp
        cases hserving.symm.trans hp
      · intro p
        rw [ServerCtrl.held_eq_nil (by rw [hserving]; exact fun h => by cases h),
          ServerCtrl.held_eq_nil (by rw [hnone]; exact fun h => by cases h)]
        rfl
      · intro p hp
        cases hnone.symm.trans hp
      · intro p hp
        rw [hp] at hserving
        cases hserving
  | accept q rest hs hpend => exact hI.accept hs hpend
  | read cfd n hs _ _ => exact hI.read n hs
  | eof cfd hs hin hshut =>
      refine hI.goto (by simp) ?_ ?_ ?_ ?_
      · rw [hs]
        exact fun _ hp => hp
      · rw [hs]
        exact fun _ => rfl
      · rw [hs]
        exact fun _ hp hne => absurd hp hne
      · intro p hp
        cases hp
        exact ⟨hin, hshut⟩
  | write cfd buf hs =>
      refine hI.goto (by simp) ?_ ?_ ?_ (fun p hp => by cases hp)
      · rw [hs]
        exact fun _ hp => hp
      · intro p
        rw [hs, writtenFor_write]
        exact List.append_nil _
      · rw [hs]
        exact fun _ hp hne => absurd hp hne
  | close cfd hs =>
      refine hI.goto (by simp) (fun p hp => by cases hp) ?_ ?_ (fun p hp => by cases hp)
      · rw [hs]
        exact fun _ => rfl
      · intro p hp _
        rw [hs] at hp
        cases hp
        exact hI.closing cfd hs

/-- **Whatever a peer does keeps the invariant.** -/
theorem SiteInv.peer {s s' : Site ι} {p : ι} {op : PeerOp} (hI : SiteInv s)
    (h : peerStep s p op = some s') : SiteInv s' := by
  cases op with
  | connect =>
      by_cases hok : s.server.listening = true ∧ ¬ s.connected p
      · rw [peerStep, if_pos hok] at h
        cases h
        have hp : p ∉ s.accepted ++ s.pending := fun hmem =>
          hok.2 ((List.mem_append.mp hmem).elim Or.inr Or.inl)
        refine ⟨hI.running, ?_, hI.serving, hI.copied, hI.done, hI.closing, ?_⟩
        · show (s.accepted ++ (s.pending ++ [p])).Nodup
          rw [← List.append_assoc]
          exact List.Nodup.append hI.once (List.nodup_singleton p)
            (List.disjoint_singleton.mpr hp)
        · intro q hq
          exact hI.silent q fun hconn => hq (hconn.imp (List.mem_append_left _) id)
      · rw [peerStep, if_neg hok] at h
        cases h
  | send bs =>
      by_cases hok : s.connected p ∧ (s.conn p).shut = false
      · rw [peerStep, if_pos hok] at h
        cases h
        refine ⟨hI.running, hI.once, hI.serving, ?_, ?_, ?_,
          ?_⟩
        · intro q
          by_cases hqp : q = p
          · subst hqp
            simp only [Function.update_self, ByteStream.received_send]
            exact hI.copied q
          · simp only [Function.update_of_ne hqp]
            exact hI.copied q
        · intro q hq hne
          -- a connection the server is through with has been shut
          have hqp : q ≠ p := fun h => by
            have hshut := (hI.done q hq hne).2
            rw [h, hok.2] at hshut
            cases hshut
          simp only [Function.update_of_ne hqp]
          exact hI.done q hq hne
        · intro q hq
          have hqp : q ≠ p := fun h => by
            have hshut := (hI.closing q hq).2
            rw [h, hok.2] at hshut
            cases hshut
          simp only [Function.update_of_ne hqp]
          exact hI.closing q hq
        · intro q hq
          have hqp : q ≠ p := fun h => hq (h ▸ hok.1)
          simp only [Function.update_of_ne hqp]
          exact hI.silent q hq
      · rw [peerStep, if_neg hok] at h
        cases h
  | shut =>
      by_cases hok : s.connected p
      · rw [peerStep, if_pos hok] at h
        cases h
        have hconn : ∀ q, (Function.update s.conn p (s.conn p).close q).received
            = (s.conn q).received ∧ ((s.conn q).inflight = [] ∧ (s.conn q).shut = true →
              (Function.update s.conn p (s.conn p).close q).inflight = [] ∧
              (Function.update s.conn p (s.conn p).close q).shut = true) := by
          intro q
          by_cases hqp : q = p
          · subst hqp
            rw [Function.update_self]
            exact ⟨rfl, fun h => ⟨h.1, rfl⟩⟩
          · rw [Function.update_of_ne hqp]
            exact ⟨rfl, id⟩
        refine ⟨hI.running, hI.once, hI.serving, ?_, ?_, ?_,
          ?_⟩
        · intro q
          exact (hI.copied q).trans (hconn q).1.symm
        · intro q hq hne
          exact (hconn q).2 (hI.done q hq hne)
        · intro q hq
          exact (hconn q).2 (hI.closing q hq)
        · intro q hq
          have hqp : q ≠ p := fun h => hq (h ▸ hok)
          simp only [Function.update_of_ne hqp]
          exact hI.silent q hq
      · rw [peerStep, if_neg hok] at h
        cases h

/-! ## What a step leaves alone -/

omit [DecidableEq ι] in
/-- Accepting moves a connection, and nothing the server does makes or breaks one. -/
theorem connected_accept {s : Site ι} {p q : ι} {rest : List ι} (hp : s.pending = p :: rest) :
    (q ∈ rest ∨ q ∈ s.accepted ++ [p]) ↔ s.connected q := by
  rw [Site.connected, hp, List.mem_append, List.mem_singleton, List.mem_cons]
  tauto

/-- The server changes neither who is connected nor what the peers have sent and closed. -/
theorem Served.frame {s s' : Site ι} (h : Served s s') (p : ι) :
    (s'.connected p ↔ s.connected p) ∧ (s'.conn p).sent = (s.conn p).sent ∧
      (s'.conn p).shut = (s.conn p).shut := by
  cases h with
  | accept q rest _ hp => exact ⟨connected_accept hp, rfl, rfl⟩
  | read cfd n _ _ _ =>
      refine ⟨Iff.rfl, ?_⟩
      by_cases h : p = cfd
      · subst h
        simp
      · simp [Function.update_of_ne h]
  | setup | eof | write | close => exact ⟨Iff.rfl, rfl, rfl⟩

/-- A peer changes its own connection only. -/
theorem peerStep_frame {s s' : Site ι} {p q : ι} {op : PeerOp} (h : peerStep s p op = some s')
    (hq : q ≠ p) : (s'.connected q ↔ s.connected q) ∧ s'.conn q = s.conn q := by
  cases op with
  | connect =>
      by_cases hok : s.server.listening = true ∧ ¬ s.connected p
      · rw [peerStep, if_pos hok] at h
        cases h
        exact ⟨by simp [Site.connected, hq], rfl⟩
      · rw [peerStep, if_neg hok] at h
        cases h
  | send bs =>
      by_cases hok : s.connected p ∧ (s.conn p).shut = false
      · rw [peerStep, if_pos hok] at h
        cases h
        exact ⟨Iff.rfl, Function.update_of_ne hq _ _⟩
      · rw [peerStep, if_neg hok] at h
        cases h
  | shut =>
      by_cases hok : s.connected p
      · rw [peerStep, if_pos hok] at h
        cases h
        exact ⟨Iff.rfl, Function.update_of_ne hq _ _⟩
      · rw [peerStep, if_neg hok] at h
        cases h

end StreamUnix
