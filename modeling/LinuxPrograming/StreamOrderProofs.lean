import LinuxPrograming.StreamServerProofs

/-!
# The order of the server's output (`6-Socket/task3/server.c`)

The server against peers that are arbitrary programs: they connect, send and shut down whenever
they like, while the server serves one connection after the other.

* **`Site.Grouped`** — what has been written is grouped by connection, in the order of accepting.
* **`stdout_in_accept_order`** — so the output is what the closed connections sent, one after the
  other and complete, followed by a part of what the current connection sent.
-/

namespace StreamUnix

open Transition

variable {ι : Type} [DecidableEq ι]

/-! ## The server among its peers -/

/-- Who moves: the server, whose next call returns `ret`, or a peer. -/
inductive SiteAct (ι : Type) where
  | server (ret : Int) (errno : Errno)
  | peer (p : ι) (op : PeerOp)

def siteStep (s : Site ι) : SiteAct ι → Option (Site ι)
  | .server ret errno => serverStep s ret errno
  | .peer p op        => peerStep s p op

/-- No call of the server fails or writes short. -/
def SiteSucceeds (s : Site ι) : SiteAct ι → Prop
  | .server ret errno => s.server.Succeeds ret errno
  | .peer _ _         => True

instance (s : Site ι) (a : SiteAct ι) : Decidable (SiteSucceeds s a) := by
  cases a <;> unfold SiteSucceeds <;> infer_instance

/-- **The invariant of the server, whatever its peers do.** -/
theorem siteInv_reach {s : Site ι} (h : Reach siteStep SiteSucceeds .opening s) : SiteInv s := by
  refine h.invariant SiteInv.opening ?_
  intro s a s' hI hok hs
  cases a with
  | server ret errno => exact hI.served (served_of_step hs hok)
  | peer p op => exact hI.peer hs

/-! ## Grouped by connection -/

/-- `bs`, read from connection `p`. -/
def tagged (p : ι) (bs : List UInt8) : List (ι × UInt8) := bs.map fun b => (p, b)

omit [DecidableEq ι] in
theorem tagged_append (p : ι) (bs cs : List UInt8) :
    tagged p (bs ++ cs) = tagged p bs ++ tagged p cs := List.map_append

/-- **What has been written is grouped by connection, in the order of accepting.**  The connection
    in service is the last one accepted. -/
structure Site.Grouped (s : Site ι) : Prop where
  stdout : s.stdout = s.accepted.flatMap fun p => tagged p (s.writtenFor p)
  last   : ∀ p, s.server.serving = some p → ∃ closed, s.accepted = closed ++ [p]

/-- Nothing has been written for a connection that has not been accepted. -/
theorem Site.Grouped.writtenFor_nil {s : Site ι} (hG : s.Grouped) {p : ι} (hp : p ∉ s.accepted) :
    s.writtenFor p = [] := by
  refine List.map_eq_nil_iff.mpr (List.filter_eq_nil_iff.mpr ?_)
  intro b hb
  rw [hG.stdout] at hb
  obtain ⟨q, hq, hbq⟩ := List.mem_flatMap.mp hb
  obtain ⟨c, -, rfl⟩ := List.mem_map.mp hbq
  simp only [decide_eq_true_eq]
  rintro rfl
  exact hp hq

/-- A connection is accepted once only. -/
theorem SiteInv.last_new {s : Site ι} (hI : SiteInv s) {p : ι} {closed : List ι}
    (hacc : s.accepted = closed ++ [p]) : p ∉ closed := by
  have honce := (List.nodup_append.mp hI.once).1
  rw [hacc] at honce
  intro hp
  exact (List.nodup_append.mp honce).2.2 p hp p (List.mem_singleton_self _) rfl

/-- **A successful step of the server keeps the output grouped.** -/
theorem Site.Grouped.served {s s' : Site ι} (hG : s.Grouped) (hI : SiteInv s)
    (h : Served s s') : s'.Grouped := by
  cases h with
  | setup c hlisten _ _ hserving _ =>
      refine ⟨hG.stdout, ?_⟩
      intro p hp
      rw [hserving] at hp
      cases hp
  | accept p rest _ hpend =>
      -- a connection that is still pending has no output yet
      have hnew : p ∉ s.accepted := by
        have honce := hI.once
        rw [hpend] at honce
        intro hp
        exact (List.nodup_append.mp honce).2.2 p hp p (List.mem_cons_self ..) rfl
      constructor
      · show s.stdout = (s.accepted ++ [p]).flatMap fun q => tagged q (s.writtenFor q)
        rw [List.flatMap_append, List.flatMap_singleton, hG.writtenFor_nil hnew]
        exact hG.stdout.trans (List.append_nil _).symm
      · intro q hq
        cases hq
        exact ⟨s.accepted, rfl⟩
  | read cfd n hs _ _ =>
      refine ⟨hG.stdout, ?_⟩
      intro p hp
      cases hp
      exact hG.last cfd (by rw [hs]; rfl)
  | eof cfd hs _ _ =>
      refine ⟨hG.stdout, ?_⟩
      intro p hp
      cases hp
      exact hG.last cfd (by rw [hs]; rfl)
  | write cfd buf hs =>
      obtain ⟨closed, hacc⟩ := hG.last cfd (by rw [hs]; rfl)
      -- the bytes go behind those of the last connection, and to no other one
      have hothers : cfd ∉ closed := hI.last_new hacc
      constructor
      · show s.stdout ++ tagged cfd buf = s.accepted.flatMap _
        have hclosed : (closed.flatMap fun p => tagged p (s.writtenFor p
              ++ if cfd = p then buf else []))
            = closed.flatMap fun p => tagged p (s.writtenFor p) := by
          refine List.flatMap_congr ?_
          intro p hp
          have hne : cfd ≠ p := fun heq => hothers (heq ▸ hp)
          rw [if_neg hne, List.append_nil]
        simp only [writtenFor_write]
        rw [hG.stdout, hacc, List.flatMap_append, List.flatMap_append, hclosed,
          List.flatMap_singleton, List.flatMap_singleton, if_pos rfl, tagged_append,
          List.append_assoc]
      · intro p hp
        cases hp
        exact ⟨closed, hacc⟩
  | close cfd hs => exact ⟨hG.stdout, fun p hp => (by cases hp)⟩

/-- **A peer leaves the output alone.** -/
theorem Site.Grouped.peer {s s' : Site ι} {p : ι} {op : PeerOp} (hG : s.Grouped)
    (h : peerStep s p op = some s') : s'.Grouped := by
  cases op with
  | connect =>
      rw [peerStep] at h
      obtain ⟨-, h⟩ := Option.ite_none_right_eq_some.mp h
      cases h
      exact ⟨hG.stdout, hG.last⟩
  | send bs =>
      rw [peerStep] at h
      obtain ⟨-, h⟩ := Option.ite_none_right_eq_some.mp h
      cases h
      exact ⟨hG.stdout, hG.last⟩
  | shut =>
      rw [peerStep] at h
      obtain ⟨-, h⟩ := Option.ite_none_right_eq_some.mp h
      cases h
      exact ⟨hG.stdout, hG.last⟩

theorem grouped_reach {s : Site ι} (h : Reach siteStep SiteSucceeds .opening s) : s.Grouped := by
  induction h with
  | init => exact ⟨rfl, fun p hp => (by cases hp)⟩
  | @next s s' a hreach hok hs hG =>
      cases a with
      | server ret errno => exact hG.served (siteInv_reach hreach) (served_of_step hs hok)
      | peer p op => exact hG.peer hs

/-! ## One connection after the other -/

/-- The connections that have been closed: all that were accepted, less the one in service. -/
def Site.closed (s : Site ι) : List ι :=
  match s.server.serving with
  | none   => s.accepted
  | some _ => s.accepted.dropLast

omit [DecidableEq ι] in
theorem Site.closed_eq {s : Site ι} {p : ι} {closed : List ι} (hp : s.server.serving = some p)
    (hacc : s.accepted = closed ++ [p]) : s.closed = closed := by
  simp only [Site.closed, hp, hacc, List.dropLast_concat]

/-- A connection not in service has been written out whole. -/
theorem SiteInv.written_whole {s : Site ι} (hI : SiteInv s) {p : ι} (hp : p ∈ s.accepted)
    (hne : s.server.serving ≠ some p) : s.writtenFor p = (s.conn p).sent := by
  have hcopied := hI.copied p
  rw [ServerCtrl.held_eq_nil hne, List.append_nil] at hcopied
  rw [hcopied]
  exact ByteStream.received_of_inflight_nil _ (hI.done p hp hne).1

/-- **BYTES OF TWO CLIENTS NEVER INTERLEAVE.**  At every point the output is all that the closed
    connections sent, in the order of accepting, and behind it a prefix of what the current one
    sent.  What has been written for that one, with the chunk in the buffer, is what has been read
    from it: no chunk is dropped or repeated. -/
theorem stdout_in_accept_order {s : Site ι} (h : Reach siteStep SiteSucceeds .opening s) :
    s.accepted = s.closed ++ s.server.serving.toList ∧
    (∀ p ∈ s.closed, (s.conn p).shut = true) ∧
    ∃ current, s.stdout = (s.closed.flatMap fun p => tagged p (s.conn p).sent) ++ current ∧
      (s.server.serving = none → current = []) ∧
      ∀ p, s.server.serving = some p → ∃ bs, current = tagged p bs ∧
        bs <+: (s.conn p).sent ∧ bs ++ s.server.held p = (s.conn p).received := by
  have hI := siteInv_reach h
  have hG := grouped_reach h
  -- what holds of the connections behind the server
  have hwhole : ∀ closed : List ι,
      (∀ p ∈ closed, p ∈ s.accepted ∧ s.server.serving ≠ some p) →
      (∀ p ∈ closed, (s.conn p).shut = true) ∧
      (closed.flatMap fun p => tagged p (s.writtenFor p))
        = closed.flatMap fun p => tagged p (s.conn p).sent := by
    intro closed hclosed
    refine ⟨fun p hp => (hI.done p (hclosed p hp).1 (hclosed p hp).2).2, List.flatMap_congr ?_⟩
    intro p hp
    rw [hI.written_whole (hclosed p hp).1 (hclosed p hp).2]
  cases hserving : s.server.serving with
  | none =>
      have hclosed : s.closed = s.accepted := by simp only [Site.closed, hserving]
      rw [hclosed]
      obtain ⟨hshut, hsent⟩ := hwhole s.accepted fun p hp => ⟨hp, by rw [hserving]; simp⟩
      refine ⟨(List.append_nil _).symm, hshut, [], ?_, fun _ => rfl, fun p hp => (by cases hp)⟩
      rw [List.append_nil, ← hsent]
      exact hG.stdout
  | some p =>
      obtain ⟨closed, hacc⟩ := hG.last p hserving
      rw [Site.closed_eq hserving hacc]
      have hp : p ∉ closed := hI.last_new hacc
      obtain ⟨hshut, hsent⟩ := hwhole closed fun q hq =>
        ⟨hacc ▸ List.mem_append_left _ hq,
          fun heq => hp (Option.some.inj (hserving.symm.trans heq) ▸ hq)⟩
      have hcopied := hI.copied p
      refine ⟨hacc, hshut, tagged p (s.writtenFor p), ?_, fun hno => (by cases hno), ?_⟩
      · rw [← hsent]
        have hstdout := hG.stdout
        rw [hacc, List.flatMap_append, List.flatMap_singleton] at hstdout
        exact hstdout
      · intro q hq
        cases hq
        refine ⟨_, rfl, ?_, hcopied⟩
        calc s.writtenFor p <+: s.writtenFor p ++ s.server.held p := List.prefix_append ..
          _ = (s.conn p).received := hcopied
          _ <+: (s.conn p).sent := List.take_prefix ..

/-- Two clients that send at the same time; the server has read the second chunk of the first one
    that connected. -/
def twoClients : List (SiteAct Bool) :=
  [.server 3 .other, .server 0 .other, .server 0 .other, .server 0 .other,
    .peer true .connect, .peer false .connect, .peer false (.send [7]), .peer true (.send [1, 2]),
    .server 4 .other, .server 2 .other, .server 2 .other, .peer false (.send [8]),
    .peer true (.send [3]), .server 1 .other, .server 1 .other, .peer true .shut,
    .server 0 .other, .server 0 .other, .server 4 .other, .server 1 .other, .server 1 .other,
    .server 1 .other]

/-- The theorem in the middle of the second connection. -/
theorem stdout_of_two_clients :
    ∃ s : Site Bool, Reach siteStep SiteSucceeds .opening s ∧
      s.stdout = [(true, 1), (true, 2), (true, 3), (false, 7)] ∧
      s.accepted = s.closed ++ s.server.serving.toList := by
  obtain ⟨s, hs, hf⟩ : ∃ s : Site Bool, Reach siteStep SiteSucceeds .opening s ∧
      s.stdout = [(true, 1), (true, 2), (true, 3), (false, 7)] :=
    reach_of_runWhen_map _ _ _ twoClients _ (by decide +kernel)
  exact ⟨s, hs, hf, (stdout_in_accept_order hs).1⟩

end StreamUnix
