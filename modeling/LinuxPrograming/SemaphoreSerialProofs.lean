import LinuxPrograming.SemaphoreSafetyProofs

/-!
# The critical sections are serializable

`serve` is one iteration of a routine as a single atomic step on the contents of the trays: the
hybrid customer looks at both trays and takes a dish from each of them at once.  The code does
not: it posts the vegan semaphore before it has touched the non-vegan tray, and other processes
cook and eat on the vegan tray meanwhile.

The serialization order is the order in which processes pass their *commit* step — the `sem_post`
that ends an iteration on one tray, and for the hybrid customer the early `sem_post` of the vegan
tray.  At that point its non-vegan dish is already determined: the tray is locked, and the next
`rand()` of the process is.  `Matches` relates a state to the atomic one in which that dish is
gone, and `Matches.step` is the simulation.
-/

namespace SemaphoreKitchen

open Transition BinaryLock SlotArray

/-! ## The atomic restaurant -/

/-- The contents of the trays, how many dishes were cooked on each, and for every process the
    number of `rand()` calls it has made and its deeds. -/
structure Service (ι : Type) where
  tray  : ShmIdx → List Slot
  made  : ShmIdx → Nat
  calls : ι → Nat
  deeds : ι → List Deed

variable {ι : Type} [DecidableEq ι]

namespace Service

/-- Process `p` records a deed. -/
def note (A : Service ι) (p : ι) (d : Deed) : Service ι :=
  { A with deeds := Function.update A.deeds p (A.deeds p ++ [d]) }

/-- Process `p` has called `rand()` another `n` times. -/
def draw (A : Service ι) (p : ι) (n : Nat) : Service ι :=
  { A with calls := Function.update A.calls p (A.calls p + n) }

/-- Process `p` puts the dish `d` on tray `t`. -/
def put (A : Service ι) (p : ι) (t : ShmIdx) (d : Slot) : Service ι :=
  { A.note p (.cooked t d) with
    tray := Function.update A.tray t (A.tray t ++ [d])
    made := Function.update A.made t (A.made t + 1) }

/-- Process `p` takes the dish at position `k` of tray `t`. -/
def eat (A : Service ι) (p : ι) (t : ShmIdx) (k : Nat) : Service ι :=
  { A.note p (.took t ((A.tray t).getD k .zeroed)) with
    tray := Function.update A.tray t ((A.tray t).eraseIdx k) }

section Projections

variable (A : Service ι) (p : ι) (t : ShmIdx) (d : Slot) (k n : Nat)

@[simp] theorem note_tray (e : Deed) : (A.note p e).tray = A.tray := rfl
@[simp] theorem note_made (e : Deed) : (A.note p e).made = A.made := rfl
@[simp] theorem note_calls (e : Deed) : (A.note p e).calls = A.calls := rfl
@[simp] theorem note_deeds (e : Deed) :
    (A.note p e).deeds = Function.update A.deeds p (A.deeds p ++ [e]) := rfl
@[simp] theorem draw_tray : (A.draw p n).tray = A.tray := rfl
@[simp] theorem draw_made : (A.draw p n).made = A.made := rfl
@[simp] theorem draw_calls :
    (A.draw p n).calls = Function.update A.calls p (A.calls p + n) := rfl
@[simp] theorem draw_deeds : (A.draw p n).deeds = A.deeds := rfl
@[simp] theorem put_tray :
    (A.put p t d).tray = Function.update A.tray t (A.tray t ++ [d]) := rfl
@[simp] theorem put_made :
    (A.put p t d).made = Function.update A.made t (A.made t + 1) := rfl
@[simp] theorem put_calls : (A.put p t d).calls = A.calls := rfl
@[simp] theorem put_deeds :
    (A.put p t d).deeds = Function.update A.deeds p (A.deeds p ++ [.cooked t d]) := rfl
@[simp] theorem eat_tray :
    (A.eat p t k).tray = Function.update A.tray t ((A.tray t).eraseIdx k) := rfl
@[simp] theorem eat_made : (A.eat p t k).made = A.made := rfl
@[simp] theorem eat_calls : (A.eat p t k).calls = A.calls := rfl
@[simp] theorem eat_deeds : (A.eat p t k).deeds = Function.update A.deeds p
    (A.deeds p ++ [.took t ((A.tray t).getD k .zeroed)]) := rfl

end Projections

end Service

/-- The food a chef of tray `t` prepares: `id` is the number of dishes on the tray. -/
def recipe (t : ShmIdx) (count rand : Nat) (now : Int) : Food :=
  ⟨count, now, (menu t).getD (rand % 2) ""⟩

/-- An iteration of a chef of tray `t`. -/
def serveChef (rand : ι → Nat → Nat) (A : Service ι) (p : ι) (now : Int) (t : ShmIdx) :
    Service ι :=
  if MAX_ITEM ≤ (A.tray t).length then A.note p .passed
  else (A.put p t ⟨recipe t (A.tray t).length (rand p (A.calls p + 1)) now,
    some (A.made t)⟩).draw p 2

/-- An iteration of a customer of tray `t`. -/
def serveCustomer (rand : ι → Nat → Nat) (A : Service ι) (p : ι) (t : ShmIdx) : Service ι :=
  if A.tray t = [] then A.note p .passed
  else (A.eat p t (rand p (A.calls p + 1) % (A.tray t).length)).draw p 2

/-- An iteration of the hybrid customer: one dish from each tray, or nothing from either. -/
def serveHybrid (rand : ι → Nat → Nat) (A : Service ι) (p : ι) : Service ι :=
  if A.tray .vegan = [] ∨ A.tray .nonVegan = [] then A.note p .passed
  else ((A.eat p .vegan (rand p (A.calls p + 1) % (A.tray .vegan).length)).eat p .nonVegan
    (rand p (A.calls p + 2) % (A.tray .nonVegan).length)).draw p 3

/-- **One whole iteration as one atomic step**, by the routine of the process. -/
def serve (rand : ι → Nat → Nat) (A : Service ι) (p : ι) (now : Int) : Role → Service ι
  | .chefDonatello    => serveChef rand A p now .nonVegan
  | .chefPortecelli   => serveChef rand A p now .vegan
  | .nonVeganCustomer => serveCustomer rand A p .nonVegan
  | .veganCustomer    => serveCustomer rand A p .vegan
  | .hybridCustomer   => serveHybrid rand A p

/-- The serial system: an action names the process whose iteration runs, and the clock. -/
def serialStep (rand : ι → Nat → Nat) (role : ι → Role) (A : Service ι) (a : ι × Int) :
    Option (Service ι) :=
  some (serve rand A a.1 a.2 (role a.1))

/-- Empty trays, and nobody has done anything. -/
def Service.opening : Service ι := ⟨fun _ => [], fun _ => 0, fun _ => 0, fun _ => []⟩

theorem serve_chef (rand : ι → Nat → Nat) (A : Service ι) (p : ι) (now : Int) (t : ShmIdx)
    (c : ChefCtrl) : serve rand A p now (Ctrl.chef t c).role = serveChef rand A p now t := by
  cases t <;> rfl

theorem serve_customer (rand : ι → Nat → Nat) (A : Service ι) (p : ι) (now : Int) (t : ShmIdx)
    (c : CustomerCtrl) :
    serve rand A p now (Ctrl.customer t c).role = serveCustomer rand A p t := by
  cases t <;> rfl

/-! ## What remains on a tray -/

/-- Cooked on tray `t` and not taken from it. -/
def untaken (t : ShmIdx) (ds : List Deed) : List Slot :=
  (cookedOn t ds).filter (· ∉ takenFrom t ds)

theorem Accounts.untaken {t : ShmIdx} {ds : List Deed} {L : Ledger Slot} (hA : Accounts t ds L) :
    untaken t ds = L.remaining := by
  rw [SemaphoreKitchen.untaken, ← hA.made, ← hA.gone]
  rfl

/-- Deeds that do not concern the tray. -/
theorem untaken_idle {t : ShmIdx} {ds es : List Deed} (hcook : cookedOn t es = [])
    (htake : takenFrom t es = []) : untaken t (ds ++ es) = untaken t ds := by
  simp only [untaken, cookedOn_append, takenFrom_append, hcook, htake, List.append_nil]

/-- A fresh dish goes to the end. -/
theorem untaken_cook {t : ShmIdx} {ds es : List Deed} {L : Ledger Slot} {d : Slot}
    (hA : Accounts t ds L) (hfresh : d.cooking = some L.made.length)
    (hcook : cookedOn t es = [d]) (htake : takenFrom t es = []) :
    untaken t (ds ++ es) = untaken t ds ++ [d] := by
  have hd : d ∉ L.made := hA.fresh_notMem hfresh
  rw [hA.untaken, ← L.remaining_make d hd]
  simp only [untaken, cookedOn_append, takenFrom_append, hcook, htake, List.append_nil,
    ← hA.made, ← hA.gone]
  rfl

/-- A taken dish leaves its position. -/
theorem untaken_take {t : ShmIdx} {ds es : List Deed} {L : Ledger Slot} {d : Slot} {k : Nat}
    (hA : Accounts t ds L) (hk : (untaken t ds)[k]? = some d)
    (hcook : cookedOn t es = []) (htake : takenFrom t es = [d]) :
    untaken t (ds ++ es) = (untaken t ds).eraseIdx k := by
  rw [hA.untaken] at hk ⊢
  rw [← L.remaining_take_at hk]
  simp only [untaken, cookedOn_append, takenFrom_append, hcook, htake, List.append_nil,
    ← hA.made, ← hA.gone]
  rfl

/-! ## How far the code is ahead of, or behind, the atomic step -/

/-- The index a removal has picked, or will pick when `rand()` returns `next`. -/
def Removal.choice (next : Nat) : Removal → Nat
  | .readItem count => next % count
  | .shiftRead _ k _ _ | .shiftWrite _ k _ _ _ | .clear _ k _ | .writeCount _ k _ => k

/-- The position of the non-vegan dish that a hybrid customer past its commit step still has to
    take away. -/
def Ctrl.pending (next : Nat) : Ctrl → Option Nat
  | .hybrid (.removeNonVegan _ r)   => some (r.choice next)
  | .hybrid (.postNonVegan _ k _)   => some k
  | _                               => none

/-- The private side of the simulation for a process at `c`: `calls` and `done` are its `rand()`
    count and deeds in the code, `calls'` and `done'` those in the atomic restaurant, `live` the
    contents of the trays when it entered. -/
def Ctrl.InStep (rand : Nat → Nat) (live : ShmIdx → List Slot) (calls : Nat) (done : List Deed)
    (calls' : Nat) (done' : List Deed) : Ctrl → Prop
  | .chef t (.writeItem count food) =>
      calls = calls' + 2 ∧ done' = done ∧ food = recipe t count (rand (calls' + 1)) food.time
  | .chef t (.writeCount count slot) =>
      calls = calls' + 2 ∧ done' = done
        ∧ slot.food = recipe t count (rand (calls' + 1)) slot.food.time
  | .chef t (.post slot) =>
      calls = calls' + 2 ∧ done' = done
        ∧ slot.food = recipe t (live t).length (rand (calls' + 1)) slot.food.time
  | .customer t (.remove r) =>
      calls + r.rands = calls' + 2 ∧ done' = done
        ∧ r.choice (rand calls) = rand (calls' + 1) % (live t).length
  | .customer t (.post k _) =>
      calls = calls' + 2 ∧ done' = done ∧ k = rand (calls' + 1) % (live t).length
  | .hybrid (.removeVegan _ r) =>
      calls + r.rands = calls' + 2 ∧ done' = done
        ∧ r.choice (rand calls) = rand (calls' + 1) % (live .vegan).length
  | .hybrid (.postVegan _ k _) =>
      calls = calls' + 2 ∧ done' = done ∧ k = rand (calls' + 1) % (live .vegan).length
  | .hybrid (.removeNonVegan _ r) =>
      calls + r.rands = calls' ∧ ∃ d, (live .nonVegan)[r.choice (rand calls)]? = some d
        ∧ done' = done ++ [.took .nonVegan d]
  | .hybrid (.postNonVegan _ k item) =>
      calls = calls' ∧ (live .nonVegan)[k]? = some item ∧ done' = done ++ [.took .nonVegan item]
  | _ => calls = calls' ∧ done' = done

/-- Only the trays a process is inside of matter to its side of the simulation. -/
theorem Ctrl.InStep.congr_live {rand : Nat → Nat} {live live' : ShmIdx → List Slot}
    {calls calls' : Nat} {done done' : List Deed} {c : Ctrl}
    (h : c.InStep rand live calls done calls' done') (heq : ∀ t, c.inside t → live' t = live t) :
    c.InStep rand live' calls done calls' done' := by
  cases c with
  | chef t c =>
      cases c with
      | post slot => rw [Ctrl.InStep, heq t ⟨rfl, rfl⟩]; exact h
      | _ => exact h
  | customer t c =>
      cases c with
      | remove r => rw [Ctrl.InStep, heq t ⟨rfl, rfl⟩]; exact h
      | post k item => rw [Ctrl.InStep, heq t ⟨rfl, rfl⟩]; exact h
      | _ => exact h
  | hybrid c =>
      cases c with
      | removeVegan n r => rw [Ctrl.InStep, heq .vegan rfl]; exact h
      | postVegan n k item => rw [Ctrl.InStep, heq .vegan rfl]; exact h
      | removeNonVegan v r => rw [Ctrl.InStep, heq .nonVegan rfl]; exact h
      | postNonVegan v k item => rw [Ctrl.InStep, heq .nonVegan rfl]; exact h
      | _ => exact h

/-- A step of a removal keeps the choice, and ends with it. -/
theorem Removal.step_choice (rand : Nat) (b : ShareFoodBuffer) (r : Removal) :
    (∀ r', (r.step rand b).2 = .inl r' → r'.rands = 0 ∧ ∀ next, r'.choice next = r.choice rand) ∧
    (∀ k item, (r.step rand b).2 = .inr (k, item) → k = r.choice rand ∧ r.rands = 0) := by
  have htest : ∀ count k item idx, (Removal.shiftTest count k item idx).rands = 0 ∧
      ∀ next, (Removal.shiftTest count k item idx).choice next = k := by
    intro count k item idx
    rw [Removal.shiftTest]
    split <;> exact ⟨rfl, fun _ => rfl⟩
  cases r with
  | readItem count => exact ⟨fun r' h => by cases h; exact htest .., fun k item h => by cases h⟩
  | shiftRead count k item idx =>
      exact ⟨fun r' h => by cases h; exact ⟨rfl, fun _ => rfl⟩, fun k item h => by cases h⟩
  | shiftWrite count k item idx next =>
      exact ⟨fun r' h => by cases h; exact htest .., fun k item h => by cases h⟩
  | clear count k item =>
      exact ⟨fun r' h => by cases h; exact ⟨rfl, fun _ => rfl⟩, fun k item h => by cases h⟩
  | writeCount count k item =>
      exact ⟨fun r' h => (by cases h), fun k item h => by cases h; exact ⟨rfl, rfl⟩⟩

/-! ## Steps that only the code sees -/

/-- The next step is the one at which the iteration takes effect in the serial order. -/
def Ctrl.commits : Ctrl → Bool
  | .chef _ (.postFull _) | .chef _ (.post _) | .customer _ (.postEmpty _)
  | .customer _ (.post _ _) | .hybrid (.postEmptyVegan _ _) | .hybrid (.postVegan _ _ _) => true
  | _ => false

/-- The hybrid customer is about to post the non-vegan semaphore, its iteration committed. -/
def Ctrl.settles : Ctrl → Bool
  | .hybrid (.postNonVegan _ _ _) => true
  | _ => false

/-- What a step that neither commits nor settles achieves: no deed, the same pending dish, and the
    private side of the simulation kept. -/
def Quiet (rand : Nat → Nat) (live : ShmIdx → List Slot) (calls : Nat) (done : List Deed)
    (calls' : Nat) (done' : List Deed) (c : Ctrl) (m : Move Ctrl) : Prop :=
  m.deeds = [] ∧ m.ctrl.pending (rand (calls + m.rands)) = c.pending (rand calls) ∧
    m.ctrl.InStep rand live (calls + m.rands) done calls' done'

section QuietSteps

variable {e : Env} {mem : Trays} {rand : Nat → Nat} {live : ShmIdx → List Slot}
variable {calls calls' : Nat} {done done' : List Deed}

theorem chef_quiet {t : ShmIdx} {c : ChefCtrl} {m : Move ChefCtrl}
    (h : chef t (menu t) e mem c = some m) (hc : (Ctrl.chef t c).commits = false)
    (hrand : ∀ i, e.rand i = rand (calls + i))
    (hshape : c.inside = true → ∃ n, c.Shape t n (mem t).buffer (live t))
    (hin : (Ctrl.chef t c).InStep rand live calls done calls' done') :
    Quiet rand live calls done calls' done' (.chef t c) (m.map (.chef t)) := by
  cases c with
  | loop => cases h; refine ⟨rfl, rfl, ?_⟩; cases e.running <;> exact hin
  | wait => obtain ⟨mem', -, rfl⟩ := Option.map_eq_some_iff.mp h; exact ⟨rfl, rfl, hin⟩
  | readCount =>
      cases h
      refine ⟨rfl, rfl, ?_⟩
      by_cases hfull : MAX_ITEM ≤ (mem t).buffer.count
      · simp only [Move.map, if_pos hfull]; exact hin
      · simp only [Move.map, if_neg hfull]; exact hin
  | postFull count => cases hc
  | cook count =>
      cases h
      obtain ⟨rfl, rfl⟩ := hin
      exact ⟨rfl, rfl, rfl, rfl, by rw [hrand]; rfl⟩
  | writeItem count food => cases h; exact ⟨rfl, rfl, hin⟩
  | writeCount count slot =>
      cases h
      obtain ⟨n, hlen, -⟩ := hshape rfl
      obtain ⟨hcalls, hdone, hfood⟩ := hin
      exact ⟨rfl, rfl, hcalls, hdone, hlen ▸ hfood⟩
  | post slot => cases hc
  | log slot => cases h; exact ⟨rfl, rfl, hin⟩
  | home => cases h

theorem customer_quiet {t : ShmIdx} {c : CustomerCtrl} {m : Move CustomerCtrl}
    (h : customer t e mem c = some m) (hc : (Ctrl.customer t c).commits = false)
    (hrand : ∀ i, e.rand i = rand (calls + i))
    (hshape : c.inside = true → c.Shape (mem t).buffer (live t))
    (hin : (Ctrl.customer t c).InStep rand live calls done calls' done') :
    Quiet rand live calls done calls' done' (.customer t c) (m.map (.customer t)) := by
  cases c with
  | loop => cases h; refine ⟨rfl, rfl, ?_⟩; cases e.running <;> exact hin
  | wait => obtain ⟨mem', -, rfl⟩ := Option.map_eq_some_iff.mp h; exact ⟨rfl, rfl, hin⟩
  | readCount =>
      cases h
      refine ⟨rfl, rfl, ?_⟩
      by_cases hempty : (mem t).buffer.count = 0
      · simp only [Move.map, if_pos hempty]; exact hin
      · simp only [Move.map, if_neg hempty]; exact hin
  | postEmpty count => cases hc
  | pickSleep count =>
      cases h
      obtain ⟨-, hlen, -⟩ := hshape rfl
      obtain ⟨rfl, rfl⟩ := hin
      refine ⟨rfl, rfl, rfl, rfl, ?_⟩
      show rand (calls + 1) % count = _
      rw [hlen]
  | remove r =>
      cases h
      obtain ⟨hcalls, hdone, hchoice⟩ := hin
      obtain ⟨hgo, hend⟩ := Removal.step_choice (e.rand 0) (mem t).buffer r
      have hr0 : e.rand 0 = rand calls := hrand 0
      refine ⟨rfl, rfl, ?_⟩
      cases hout : (r.step (e.rand 0) (mem t).buffer).2 with
      | inl r' =>
          obtain ⟨h0, hk⟩ := hgo r' hout
          simp only [Move.map]
          refine ⟨?_, hdone, ?_⟩
          · rw [h0]; exact hcalls
          · rw [hk, hr0]; exact hchoice
      | inr d =>
          obtain ⟨hk, h0⟩ := hend d.1 d.2 hout
          simp only [Move.map]
          exact ⟨hcalls, hdone, by rw [hk, hr0]; exact hchoice⟩
  | post k item => cases hc
  | log item => cases h; exact ⟨rfl, rfl, hin⟩
  | home => cases h

theorem hybrid_quiet {c : HybridCtrl} {m : Move HybridCtrl} (h : hybridCustomer e mem c = some m)
    (hc : (Ctrl.hybrid c).commits = false) (hs : (Ctrl.hybrid c).settles = false)
    (hrand : ∀ i, e.rand i = rand (calls + i))
    (hshape : ∀ t, c.inside t = true → c.Shape (mem t).buffer (live t) t)
    (hin : (Ctrl.hybrid c).InStep rand live calls done calls' done') :
    Quiet rand live calls done calls' done' (.hybrid c) (m.map .hybrid) := by
  have hr0 : e.rand 0 = rand calls := hrand 0
  cases c with
  | loop => cases h; refine ⟨rfl, ?_, ?_⟩ <;> cases e.running <;> first | rfl | exact hin
  | waitVegan => obtain ⟨mem', -, rfl⟩ := Option.map_eq_some_iff.mp h; exact ⟨rfl, rfl, hin⟩
  | waitNonVegan => obtain ⟨mem', -, rfl⟩ := Option.map_eq_some_iff.mp h; exact ⟨rfl, rfl, hin⟩
  | readVegan => cases h; exact ⟨rfl, rfl, hin⟩
  | readNonVegan v =>
      by_cases hempty : v = 0 ∨ (mem .nonVegan).buffer.count = 0
      · simp only [hybridCustomer, if_pos hempty, Option.some.injEq] at h
        subst h
        exact ⟨rfl, rfl, hin⟩
      · simp only [hybridCustomer, if_neg hempty, Option.some.injEq] at h
        subst h
        exact ⟨rfl, rfl, hin⟩
  | postEmptyVegan v n => cases hc
  | postEmptyNonVegan => cases h; exact ⟨rfl, rfl, hin⟩
  | pickSleep v n =>
      cases h
      obtain ⟨-, hlen, -⟩ := hshape .vegan rfl
      obtain ⟨rfl, rfl⟩ := hin
      refine ⟨rfl, rfl, rfl, rfl, ?_⟩
      show rand (calls + 1) % v = _
      rw [hlen]
  | removeVegan n r =>
      cases h
      obtain ⟨hcalls, hdone, hchoice⟩ := hin
      obtain ⟨hgo, hend⟩ := Removal.step_choice (e.rand 0) (mem .vegan).buffer r
      refine ⟨rfl, ?_, ?_⟩ <;>
        cases hout : (r.step (e.rand 0) (mem .vegan).buffer).2 <;> simp only [Move.map]
      · rfl
      · rfl
      · obtain ⟨h0, hk⟩ := hgo _ hout
        exact ⟨by rw [h0]; exact hcalls, hdone, by rw [hk, hr0]; exact hchoice⟩
      · obtain ⟨hk, -⟩ := hend _ _ hout
        exact ⟨hcalls, hdone, by rw [hk, hr0]; exact hchoice⟩
  | postVegan n k item => cases hc
  | removeNonVegan v r =>
      cases h
      obtain ⟨hcalls, d, hd, hdone⟩ := hin
      obtain ⟨hgo, hend⟩ := Removal.step_choice (e.rand 0) (mem .nonVegan).buffer r
      have hsh := Removal.step_shape (e.rand 0) (hshape .nonVegan rfl)
      refine ⟨rfl, ?_, ?_⟩ <;>
        cases hout : (r.step (e.rand 0) (mem .nonVegan).buffer).2 <;> simp only [Move.map]
      · obtain ⟨-, hk⟩ := hgo _ hout
        exact congrArg some ((hk _).trans (congrArg r.choice hr0))
      · obtain ⟨hk, -⟩ := hend _ _ hout
        exact congrArg some (hk.trans (congrArg r.choice hr0))
      · obtain ⟨h0, hk⟩ := hgo _ hout
        exact ⟨by rw [h0]; exact hcalls, d, by rw [hk, hr0]; exact hd, hdone⟩
      · -- the dish in hand is the one that was foretold
        obtain ⟨hk, -⟩ := hend _ _ hout
        rcases hsh with ⟨r', hr', -⟩ | ⟨k, item, hr', hitem, -⟩
        · cases hout.symm.trans hr'
        · cases hout.symm.trans hr'
          have hkd : k = r.choice (rand calls) := hk.trans (congrArg r.choice hr0)
          have hsame : item = d := by
            rw [hkd] at hitem
            exact Option.some.inj (hitem.symm.trans hd)
          exact ⟨hcalls, hitem, hsame ▸ hdone⟩
  | postNonVegan v k item => cases hs
  | log v n => cases h; exact ⟨rfl, rfl, hin⟩
  | home => cases h

/-- **A step that neither commits nor settles is invisible in the atomic restaurant.** -/
theorem routine_quiet {c : Ctrl} {m : Move Ctrl} (h : routine e mem c = some m)
    (hc : c.commits = false) (hs : c.settles = false) (hrand : ∀ i, e.rand i = rand (calls + i))
    (hshape : ∀ t, c.inside t → ∃ n, c.Shape t n (mem t).buffer (live t))
    (hin : c.InStep rand live calls done calls' done') :
    Quiet rand live calls done calls' done' c m := by
  cases c with
  | chef t c =>
      rw [routine_chef] at h
      obtain ⟨m₀, hm₀, rfl⟩ := Option.map_eq_some_iff.mp h
      exact chef_quiet hm₀ hc hrand (fun hin => hshape t ⟨rfl, hin⟩) hin
  | customer t c =>
      rw [routine_customer] at h
      obtain ⟨m₀, hm₀, rfl⟩ := Option.map_eq_some_iff.mp h
      refine customer_quiet hm₀ hc hrand ?_ hin
      intro hin
      obtain ⟨n, hsh⟩ := hshape t ⟨rfl, hin⟩
      exact hsh
  | hybrid c =>
      obtain ⟨m₀, hm₀, rfl⟩ := Option.map_eq_some_iff.mp h
      refine hybrid_quiet hm₀ hc hs hrand ?_ hin
      intro t hin
      obtain ⟨n, hsh⟩ := hshape t hin
      exact hsh

end QuietSteps

/-! ## The simulation -/

/-- A tray once the dish at the pending position is gone. -/
def ahead : Option Nat → List Slot → List Slot
  | none, live   => live
  | some k, live => live.eraseIdx k

/-- The code's state `s` and the atomic state `A` describe the same restaurant; the non-vegan dish
    of a committed hybrid customer is already gone in `A`. -/
structure Matches (rand : ι → Nat → Nat) (s : Kitchen ι) (A : Service ι) : Prop where
  inv      : ∀ t, TrayInv t s
  made     : ∀ t, A.made t = (cookedOn t s.deeds).length
  vegan    : A.tray .vegan = untaken .vegan s.deeds
  settled  : (∀ p, (s.ctrl p).pending (rand p (s.calls p)) = none) →
    A.tray .nonVegan = untaken .nonVegan s.deeds
  pending  : ∀ p k, (s.ctrl p).pending (rand p (s.calls p)) = some k →
    A.tray .nonVegan = (untaken .nonVegan s.deeds).eraseIdx k
  inStep   : ∀ p, (s.ctrl p).InStep (rand p) (fun t => untaken t s.deeds)
    (s.calls p) (s.deedsOf p) (A.calls p) (A.deeds p)

theorem deedsOf_commit_self (s : Kitchen ι) (p : ι) (m : Move Ctrl) :
    (s.commit p m).deedsOf p = s.deedsOf p ++ m.deeds := by
  simp only [Kitchen.deedsOf, Kitchen.commit, List.filter_append, List.map_append]
  congr 1
  rw [List.filter_eq_self.mpr (by simp), List.map_map]
  exact List.map_id _

theorem deedsOf_commit_other {p q : ι} (s : Kitchen ι) (m : Move Ctrl) (h : q ≠ p) :
    (s.commit p m).deedsOf q = s.deedsOf q := by
  have hnone : (m.deeds.map fun d => (p, d)).filter (fun e => e.1 = q) = [] := by
    refine List.filter_eq_nil_iff.mpr ?_
    intro e he
    obtain ⟨d, -, rfl⟩ := List.mem_map.mp he
    simpa using h.symm
  simp only [Kitchen.deedsOf, Kitchen.commit, List.filter_append, List.map_append]
  rw [hnone, List.map_nil, List.append_nil]

@[simp] theorem commit_calls_self (s : Kitchen ι) (p : ι) (m : Move Ctrl) :
    (s.commit p m).calls p = s.calls p + m.rands := Function.update_self ..

theorem commit_calls_other {p q : ι} (s : Kitchen ι) (m : Move Ctrl) (h : q ≠ p) :
    (s.commit p m).calls q = s.calls q := Function.update_of_ne h ..

/-- A process with a pending dish is inside the non-vegan section. -/
theorem Ctrl.inside_of_pending {next k : Nat} {c : Ctrl} (h : c.pending next = some k) :
    c.inside .nonVegan := by
  cases c with
  | chef t c => cases h
  | customer t c => cases h
  | hybrid c =>
      cases c with
      | removeNonVegan v r => rfl
      | postNonVegan v k item => rfl
      | _ => cases h

namespace Matches

variable {rand : ι → Nat → Nat} {s : Kitchen ι} {A : Service ι} {p : ι} {m : Move Ctrl}

/-- The books, with what remains in them named. -/
theorem books (hM : Matches rand s A) (t : ShmIdx) :
    ∃ L, TrayBooks t s L ∧ L.remaining = untaken t s.deeds := by
  obtain ⟨L, hB⟩ := hM.inv t
  exact ⟨L, hB, hB.accounts.untaken.symm⟩

/-- While another process is inside the non-vegan section without a pending dish, nobody has one. -/
theorem no_pending (hM : Matches rand s A) (hin : (s.ctrl p).inside .nonVegan)
    (hno : ∀ next, (s.ctrl p).pending next = none) (q : ι) :
    (s.ctrl q).pending (rand q (s.calls q)) = none := by
  cases hq : (s.ctrl q).pending (rand q (s.calls q)) with
  | none => rfl
  | some k =>
      obtain ⟨L, hB, -⟩ := hM.books .nonVegan
      have hqp := hB.lock.unique hin (Ctrl.inside_of_pending hq)
      rw [hqp, hno] at hq
      cases hq

/-- A step with no deeds that keeps `p`'s side of the simulation. -/
theorem quiet (hM : Matches rand s A) (hinv : ∀ t, TrayInv t (s.commit p m))
    (hq : Quiet (rand p) (fun t => untaken t s.deeds) (s.calls p) (s.deedsOf p) (A.calls p)
      (A.deeds p) (s.ctrl p) m) : Matches rand (s.commit p m) A := by
  obtain ⟨hdeeds, hpend, hin⟩ := hq
  have hds : (s.commit p m).deeds = s.deeds := by rw [commit_deeds, hdeeds, List.append_nil]
  have hpend' : ∀ q, ((s.commit p m).ctrl q).pending (rand q ((s.commit p m).calls q))
      = (s.ctrl q).pending (rand q (s.calls q)) := by
    intro q
    by_cases h : q = p
    · subst h
      rw [commit_ctrl_self, commit_calls_self, hpend]
    · rw [commit_ctrl_other s m h, commit_calls_other s m h]
  refine ⟨hinv, fun t => by rw [hds]; exact hM.made t, by rw [hds]; exact hM.vegan, ?_, ?_, ?_⟩
  · intro hno
    rw [hds]
    exact hM.settled fun q => hpend' q ▸ hno q
  · intro q k hk
    rw [hds]
    exact hM.pending q k (hpend' q ▸ hk)
  · intro q
    rw [hds]
    by_cases h : q = p
    · subst h
      rw [commit_ctrl_self, commit_calls_self, deedsOf_commit_self, hdeeds, List.append_nil]
      exact hin
    · rw [commit_ctrl_other s m h, commit_calls_other s m h, deedsOf_commit_other s m h]
      exact hM.inStep q

/-- A step that does something, with the atomic state it leads to.  Processes inside another
    tray's section are not disturbed; the last premise says where the non-vegan tray stands. -/
theorem advance (hM : Matches rand s A) (hinv : ∀ t, TrayInv t (s.commit p m)) {A' : Service ι}
    (hothers : ∀ q, q ≠ p → A'.calls q = A.calls q ∧ A'.deeds q = A.deeds q)
    (hmade : ∀ t, A'.made t = (cookedOn t (s.deeds ++ m.deeds)).length)
    (hlive : ∀ t, (s.ctrl p).inside t ∨ untaken t (s.deeds ++ m.deeds) = untaken t s.deeds)
    (hvegan : A'.tray .vegan = untaken .vegan (s.deeds ++ m.deeds))
    (hstep : m.ctrl.InStep (rand p) (fun t => untaken t (s.deeds ++ m.deeds)) (s.calls p + m.rands)
      (s.deedsOf p ++ m.deeds) (A'.calls p) (A'.deeds p))
    (hnon : ((s.ctrl p).inside .nonVegan ∧ A'.tray .nonVegan =
        ahead (m.ctrl.pending (rand p (s.calls p + m.rands)))
          (untaken .nonVegan (s.deeds ++ m.deeds))) ∨
      ((∀ next, (s.ctrl p).pending next = none) ∧ (∀ next, m.ctrl.pending next = none) ∧
        A'.tray .nonVegan = A.tray .nonVegan ∧
        untaken .nonVegan (s.deeds ++ m.deeds) = untaken .nonVegan s.deeds)) :
    Matches rand (s.commit p m) A' := by
  -- the pending dish of another process is what it was
  have hpend : ∀ q, q ≠ p → ((s.commit p m).ctrl q).pending (rand q ((s.commit p m).calls q))
      = (s.ctrl q).pending (rand q (s.calls q)) := by
    intro q h
    rw [commit_ctrl_other s m h, commit_calls_other s m h]
  have hself : ((s.commit p m).ctrl p).pending (rand p ((s.commit p m).calls p))
      = m.ctrl.pending (rand p (s.calls p + m.rands)) := by
    rw [commit_ctrl_self, commit_calls_self]
  obtain ⟨L, hB, -⟩ := hM.books .nonVegan
  refine ⟨hinv, fun t => by rw [commit_deeds]; exact hmade t,
    by rw [commit_deeds]; exact hvegan, ?_, ?_, ?_⟩
  · intro hno
    rw [commit_deeds]
    rcases hnon with ⟨-, htray⟩ | ⟨hp, -, htray, hsame⟩
    · rw [htray, ← hself, hno p]
      rfl
    · rw [htray, hsame]
      refine hM.settled ?_
      intro q
      by_cases h : q = p
      · rw [h]
        exact hp _
      · exact hpend q h ▸ hno q
  · intro q k hk
    rw [commit_deeds]
    rcases hnon with ⟨hin, htray⟩ | ⟨-, hm, htray, hsame⟩
    · by_cases h : q = p
      · subst h
        rw [htray, ← hself, hk]
        rfl
      · -- two processes inside the non-vegan section
        rw [hpend q h] at hk
        exact absurd (hB.lock.unique hin (Ctrl.inside_of_pending hk)) h
    · by_cases h : q = p
      · subst h
        rw [hself, hm] at hk
        cases hk
      · rw [htray, hsame]
        exact hM.pending q k (hpend q h ▸ hk)
  · intro q
    rw [commit_deeds]
    by_cases h : q = p
    · subst h
      rw [commit_ctrl_self, commit_calls_self, deedsOf_commit_self]
      exact hstep
    · obtain ⟨hcalls, hdeeds⟩ := hothers q h
      rw [commit_ctrl_other s m h, commit_calls_other s m h, deedsOf_commit_other s m h, hcalls,
        hdeeds]
      refine (hM.inStep q).congr_live ?_
      intro t hin
      rcases hlive t with hp | hsame
      · obtain ⟨L, hB, -⟩ := hM.books t
        exact absurd (hB.lock.unique hp hin) h
      · exact hsame

/-- What a process inside tray `t` has made of its buffer, in terms of what remains. -/
theorem busy (hM : Matches rand s A) {t : ShmIdx} (hin : (s.ctrl p).inside t) :
    (s.ctrl p).Shape t (cookedOn t s.deeds).length (s.food_shm t).buffer (untaken t s.deeds) := by
  obtain ⟨L, hB, hlive⟩ := hM.books t
  have hsh := hB.busy p hin
  rw [hlive, hB.accounts.made] at hsh
  exact hsh

/-- A process inside a tray, with no dish pending, sees the tray as the atomic restaurant does. -/
theorem tray_eq (hM : Matches rand s A) {t : ShmIdx} (hin : (s.ctrl p).inside t)
    (hno : ∀ next, (s.ctrl p).pending next = none) : A.tray t = untaken t s.deeds := by
  cases t with
  | vegan => exact hM.vegan
  | nonVegan => exact hM.settled (hM.no_pending hin hno)

/-- A commit step that concerns the one tray `t`. -/
theorem advance_at (hM : Matches rand s A) (hinv : ∀ t, TrayInv t (s.commit p m))
    {A' : Service ι} {t : ShmIdx} (hin : (s.ctrl p).inside t)
    (hidle : ∀ next, (s.ctrl p).pending next = none) (hidle' : ∀ next, m.ctrl.pending next = none)
    (hothers : ∀ q, q ≠ p → A'.calls q = A.calls q ∧ A'.deeds q = A.deeds q)
    (hframe : ∀ t', t' ≠ t → cookedOn t' m.deeds = [] ∧ takenFrom t' m.deeds = [] ∧
      A'.tray t' = A.tray t' ∧ A'.made t' = A.made t')
    (hmade : A'.made t = (cookedOn t (s.deeds ++ m.deeds)).length)
    (htray : A'.tray t = untaken t (s.deeds ++ m.deeds))
    (hstep : m.ctrl.InStep (rand p) (fun t => untaken t (s.deeds ++ m.deeds)) (s.calls p + m.rands)
      (s.deedsOf p ++ m.deeds) (A'.calls p) (A'.deeds p)) :
    Matches rand (s.commit p m) A' := by
  have hlive : ∀ t', t' ≠ t → untaken t' (s.deeds ++ m.deeds) = untaken t' s.deeds :=
    fun t' ht => untaken_idle (hframe t' ht).1 (hframe t' ht).2.1
  -- the other tray and its books do not change
  refine hM.advance hinv hothers ?_ ?_ ?_ hstep ?_
  · intro t'
    by_cases ht : t' = t
    · rw [ht]
      exact hmade
    · rw [(hframe t' ht).2.2.2, cookedOn_append, (hframe t' ht).1, List.append_nil]
      exact hM.made t'
  · intro t'
    by_cases ht : t' = t
    · rw [ht]
      exact Or.inl hin
    · exact Or.inr (hlive t' ht)
  · by_cases ht : ShmIdx.vegan = t
    · rw [ht]
      exact htray
    · rw [(hframe _ ht).2.2.1, hlive _ ht]
      exact hM.vegan
  · by_cases ht : ShmIdx.nonVegan = t
    · subst ht
      refine Or.inl ⟨hin, ?_⟩
      rw [hidle']
      exact htray
    · exact Or.inr ⟨hidle, hidle', (hframe _ ht).2.2.1, hlive _ ht⟩

/-- A chef that found its tray full. -/
theorem chef_passes (hM : Matches rand s A) {t : ShmIdx} {count : Nat} {mem : Trays}
    (hc : s.ctrl p = .chef t (.postFull count)) (now : Int)
    (hinv : ∀ t', TrayInv t' (s.commit p ⟨mem, .chef t .loop, 0, [.passed]⟩)) :
    Matches rand (s.commit p ⟨mem, .chef t .loop, 0, [.passed]⟩) (serveChef rand A p now t) := by
  have hin : (s.ctrl p).inside t := by rw [hc]; exact ⟨rfl, rfl⟩
  have hidle : ∀ next, (s.ctrl p).pending next = none := fun next => by rw [hc]; rfl
  have htray := hM.tray_eq hin hidle
  have hsh := hM.busy hin
  have hst := hM.inStep p
  rw [hc] at hsh hst
  obtain ⟨-, hcount, hfull⟩ := hsh
  obtain ⟨hcalls, hdone⟩ := hst
  rw [serveChef, if_pos (by rw [htray, ← hcount]; exact hfull)]
  refine hM.advance_at hinv hin hidle (fun _ => rfl) (fun q hq => ⟨rfl, ?_⟩)
    (fun t' _ => ⟨rfl, rfl, rfl, rfl⟩) ?_ ?_ ⟨hcalls, ?_⟩
  · exact Function.update_of_ne hq _ _
  · rw [cookedOn_append]
    exact (hM.made t).trans (by simp [cookedOn])
  · rw [untaken_idle rfl rfl]
    exact htray
  · rw [Service.note_deeds, Function.update_self, hdone]

/-- A chef that has put a dish on its tray. -/
theorem chef_cooks (hM : Matches rand s A) {t : ShmIdx} {slot : Slot} {mem : Trays}
    (hc : s.ctrl p = .chef t (.post slot))
    (hinv : ∀ t', TrayInv t' (s.commit p ⟨mem, .chef t (.log slot), 0, [.cooked t slot]⟩)) :
    Matches rand (s.commit p ⟨mem, .chef t (.log slot), 0, [.cooked t slot]⟩)
      (serveChef rand A p slot.food.time t) := by
  have hin : (s.ctrl p).inside t := by rw [hc]; exact ⟨rfl, rfl⟩
  have hidle : ∀ next, (s.ctrl p).pending next = none := fun next => by rw [hc]; rfl
  have htray := hM.tray_eq hin hidle
  have hsh := hM.busy hin
  have hst := hM.inStep p
  rw [hc] at hsh hst
  obtain ⟨hroom, hfresh, -⟩ := hsh
  obtain ⟨hcalls, hdone, hfood⟩ := hst
  obtain ⟨L, hB, -⟩ := hM.books t
  -- the dish the atomic step cooks is the one the code has stored
  have hslot : (⟨recipe t (A.tray t).length (rand p (A.calls p + 1)) slot.food.time,
      some (A.made t)⟩ : Slot) = slot := by
    rw [htray, hM.made, ← hfresh.cooking, ← hfood]
  have hcook : cookedOn t [.cooked t slot] = [slot] := by simp [cookedOn]
  rw [serveChef, if_neg (by rw [htray]; exact Nat.not_le_of_lt hroom), hslot]
  refine hM.advance_at hinv hin hidle (fun _ => rfl) (fun q hq => ⟨?_, ?_⟩)
    (fun t' ht => ⟨?_, rfl, ?_, ?_⟩) ?_ ?_ ⟨?_, ?_⟩
  · exact Function.update_of_ne hq _ _
  · exact Function.update_of_ne hq _ _
  · simp [cookedOn, ht.symm]
  · exact Function.update_of_ne ht _ _
  · exact Function.update_of_ne ht _ _
  · rw [cookedOn_append, hcook, List.length_append, ← hM.made t]
    simp
  · rw [untaken_cook hB.accounts (by rw [hfresh.cooking, hB.accounts.made]) hcook rfl, ← htray]
    simp
  · simpa using hcalls
  · simp [hdone]

/-- A customer that found its tray empty. -/
theorem customer_passes (hM : Matches rand s A) {t : ShmIdx} {count : Nat} {mem : Trays}
    (hc : s.ctrl p = .customer t (.postEmpty count))
    (hinv : ∀ t', TrayInv t' (s.commit p ⟨mem, .customer t .loop, 0, [.passed]⟩)) :
    Matches rand (s.commit p ⟨mem, .customer t .loop, 0, [.passed]⟩)
      (serveCustomer rand A p t) := by
  have hin : (s.ctrl p).inside t := by rw [hc]; exact ⟨rfl, rfl⟩
  have hidle : ∀ next, (s.ctrl p).pending next = none := fun next => by rw [hc]; rfl
  have htray := hM.tray_eq hin hidle
  have hsh := hM.busy hin
  have hst := hM.inStep p
  rw [hc] at hsh hst
  obtain ⟨-, hcount, hzero⟩ := hsh
  obtain ⟨hcalls, hdone⟩ := hst
  rw [serveCustomer, if_pos (by
    rw [htray]; exact List.length_eq_zero_iff.mp (hcount.symm.trans hzero))]
  refine hM.advance_at hinv hin hidle (fun _ => rfl) (fun q hq => ⟨rfl, ?_⟩)
    (fun t' _ => ⟨rfl, rfl, rfl, rfl⟩) ?_ ?_ ⟨hcalls, ?_⟩
  · exact Function.update_of_ne hq _ _
  · rw [cookedOn_append]
    exact (hM.made t).trans (by simp [cookedOn])
  · rw [untaken_idle rfl rfl]
    exact htray
  · rw [Service.note_deeds, Function.update_self, hdone]

/-- A customer that has taken a dish. -/
theorem customer_eats (hM : Matches rand s A) {t : ShmIdx} {k : Nat} {item : Slot} {mem : Trays}
    (hc : s.ctrl p = .customer t (.post k item))
    (hinv : ∀ t', TrayInv t' (s.commit p ⟨mem, .customer t (.log item), 0, [.took t item]⟩)) :
    Matches rand (s.commit p ⟨mem, .customer t (.log item), 0, [.took t item]⟩)
      (serveCustomer rand A p t) := by
  have hin : (s.ctrl p).inside t := by rw [hc]; exact ⟨rfl, rfl⟩
  have hidle : ∀ next, (s.ctrl p).pending next = none := fun next => by rw [hc]; rfl
  have htray := hM.tray_eq hin hidle
  have hsh := hM.busy hin
  have hst := hM.inStep p
  rw [hc] at hsh hst
  obtain ⟨hitem, -⟩ := hsh
  obtain ⟨hcalls, hdone, hk⟩ := hst
  obtain ⟨L, hB, -⟩ := hM.books t
  have htake : takenFrom t [.took t item] = [item] := by simp [takenFrom]
  have hne : A.tray t ≠ [] := fun h => by
    rw [← htray, h] at hitem
    cases hitem
  have hdish : (A.tray t)[k]?.getD .zeroed = item := by
    rw [htray, hitem]
    rfl
  have hpick : rand p (A.calls p + 1) % (A.tray t).length = k := by rw [htray, hk]
  -- the atomic step picks the same position, because the tray has not changed since it was entered
  rw [serveCustomer, if_neg hne, hpick]
  refine hM.advance_at hinv hin hidle (fun _ => rfl) (fun q hq => ⟨?_, ?_⟩)
    (fun t' ht => ⟨rfl, ?_, ?_, rfl⟩) ?_ ?_ ⟨?_, ?_⟩
  · exact Function.update_of_ne hq _ _
  · exact Function.update_of_ne hq _ _
  · simp [takenFrom, ht.symm]
  · exact Function.update_of_ne ht _ _
  · rw [cookedOn_append]
    exact (hM.made t).trans (by simp [cookedOn])
  · rw [untaken_take hB.accounts hitem rfl htake, ← htray]
    simp
  · simpa using hcalls
  · simp [hdone, hdish]

/-- A hybrid customer that found one of the trays empty. -/
theorem hybrid_passes (hM : Matches rand s A) {v n : Nat} {mem : Trays}
    (hc : s.ctrl p = .hybrid (.postEmptyVegan v n))
    (hinv : ∀ t', TrayInv t' (s.commit p ⟨mem, .hybrid .postEmptyNonVegan, 0, [.passed]⟩)) :
    Matches rand (s.commit p ⟨mem, .hybrid .postEmptyNonVegan, 0, [.passed]⟩)
      (serveHybrid rand A p) := by
  have hin : ∀ t, (s.ctrl p).inside t := fun t => by rw [hc]; cases t <;> rfl
  have hidle : ∀ next, (s.ctrl p).pending next = none := fun next => by rw [hc]; rfl
  have htray := fun t => hM.tray_eq (hin t) hidle
  have hshv := hM.busy (hin .vegan)
  have hshn := hM.busy (hin .nonVegan)
  have hst := hM.inStep p
  rw [hc] at hshv hshn hst
  obtain ⟨-, hv, hempty⟩ := hshv
  obtain ⟨-, hn, -⟩ := hshn
  obtain ⟨hcalls, hdone⟩ := hst
  have hnone : A.tray .vegan = [] ∨ A.tray .nonVegan = [] := by
    rw [htray, htray]
    exact hempty.imp (fun h => List.length_eq_zero_iff.mp (hv.symm.trans h))
      fun h => List.length_eq_zero_iff.mp (hn.symm.trans h)
  -- both counts were read inside the two sections, so the abstract trays have them too
  rw [serveHybrid, if_pos hnone]
  refine hM.advance hinv (fun q hq => ⟨rfl, ?_⟩) (fun t => ?_) (fun t => Or.inl (hin t)) ?_
    ⟨hcalls, ?_⟩ (Or.inl ⟨hin .nonVegan, ?_⟩)
  · exact Function.update_of_ne hq _ _
  · rw [cookedOn_append]
    exact (hM.made t).trans (by simp [cookedOn])
  · rw [untaken_idle rfl rfl]
    exact htray .vegan
  · rw [Service.note_deeds, Function.update_self, hdone]
  · rw [untaken_idle rfl rfl]
    exact htray .nonVegan

/-- A hybrid customer that releases the vegan tray: from here on its non-vegan dish is fixed, and
    the atomic step takes both dishes. -/
theorem hybrid_eats (hM : Matches rand s A) {n k : Nat} {item : Slot} {mem : Trays}
    (hc : s.ctrl p = .hybrid (.postVegan n k item))
    (hinv : ∀ t', TrayInv t' (s.commit p
      ⟨mem, .hybrid (.removeNonVegan item (.readItem n)), 0, [.took .vegan item]⟩)) :
    Matches rand (s.commit p
        ⟨mem, .hybrid (.removeNonVegan item (.readItem n)), 0, [.took .vegan item]⟩)
      (serveHybrid rand A p) := by
  have hin : ∀ t, (s.ctrl p).inside t := fun t => by rw [hc]; cases t <;> rfl
  have hidle : ∀ next, (s.ctrl p).pending next = none := fun next => by rw [hc]; rfl
  have htray := fun t => hM.tray_eq (hin t) hidle
  have hshv := hM.busy (hin .vegan)
  have hshn := hM.busy (hin .nonVegan)
  have hst := hM.inStep p
  rw [hc] at hshv hshn hst
  obtain ⟨hitem, -⟩ := hshv
  obtain ⟨-, hn, hpos⟩ := hshn
  obtain ⟨hcalls, hdone, hk⟩ := hst
  obtain ⟨L, hB, -⟩ := hM.books .vegan
  have htake : takenFrom .vegan [.took .vegan item] = [item] := by simp [takenFrom]
  have hidleN : untaken .nonVegan (s.deeds ++ [.took .vegan item]) = untaken .nonVegan s.deeds :=
    untaken_idle rfl (by simp [takenFrom])
  have hdish : (A.tray .vegan)[k]?.getD .zeroed = item := by
    rw [htray, hitem]
    rfl
  have hsome : ¬ (A.tray .vegan = [] ∨ A.tray .nonVegan = []) := by
    rw [htray, htray]
    rintro (h | h)
    · rw [h] at hitem
      cases hitem
    · rw [h] at hn
      exact absurd hpos (by rw [hn]; exact Nat.lt_irrefl 0)
  have hkv : rand p (A.calls p + 1) % (A.tray .vegan).length = k := by rw [htray, hk]
  have hkn : rand p (A.calls p + 2) % (A.tray .nonVegan).length = rand p (s.calls p) % n := by
    rw [htray, ← hn, hcalls]
  have hlt : rand p (s.calls p) % n < (untaken .nonVegan s.deeds).length :=
    hn ▸ Nat.mod_lt _ hpos
  have hfound : (A.tray .nonVegan)[rand p (s.calls p) % n]?
      = some ((A.tray .nonVegan).getD (rand p (s.calls p) % n) .zeroed) := by
    rw [htray, List.getD_eq_getElem?_getD, List.getElem?_eq_getElem hlt]
    rfl
  rw [serveHybrid, if_neg hsome, hkv, hkn]
  refine hM.advance hinv (fun q hq => ⟨?_, ?_⟩) (fun t => ?_) (fun t => Or.inl (hin t)) ?_
    ⟨?_, (A.tray .nonVegan).getD (rand p (s.calls p) % n) .zeroed, ?_, ?_⟩
    (Or.inl ⟨hin .nonVegan, ?_⟩)
  · simp [hq]
  · simp [hq]
  · rw [cookedOn_append]
    exact (hM.made t).trans (by simp [cookedOn])
  · rw [untaken_take hB.accounts hitem rfl htake, ← htray]
    simp
  · simp [Removal.rands, hcalls]
  · show (untaken .nonVegan (s.deeds ++ [.took .vegan item]))[rand p (s.calls p + 0) % n]? = _
    rw [hidleN, ← htray]
    exact hfound
  · simp [hdone, hdish]
  · show _ = ahead (some (rand p (s.calls p + 0) % n)) _
    rw [hidleN, ← htray]
    simp [ahead]

/-- A hybrid customer that releases the non-vegan tray: the code has caught up. -/
theorem hybrid_settles (hM : Matches rand s A) {v item : Slot} {k : Nat} {mem : Trays}
    (hc : s.ctrl p = .hybrid (.postNonVegan v k item))
    (hinv : ∀ t', TrayInv t' (s.commit p
      ⟨mem, .hybrid (.log v item), 0, [.took .nonVegan item]⟩)) :
    Matches rand (s.commit p ⟨mem, .hybrid (.log v item), 0, [.took .nonVegan item]⟩) A := by
  have hin : (s.ctrl p).inside .nonVegan := by rw [hc]; rfl
  have hpend : (s.ctrl p).pending (rand p (s.calls p)) = some k := by rw [hc]; rfl
  have hst := hM.inStep p
  rw [hc] at hst
  obtain ⟨hcalls, hitem, hdone⟩ := hst
  obtain ⟨L, hB, -⟩ := hM.books .nonVegan
  have htake : takenFrom .nonVegan [.took .nonVegan item] = [item] := by simp [takenFrom]
  have hidleV : untaken .vegan (s.deeds ++ [.took .nonVegan item]) = untaken .vegan s.deeds :=
    untaken_idle rfl (by simp [takenFrom])
  refine hM.advance hinv (fun q _ => ⟨rfl, rfl⟩) (fun t => ?_) (fun t => ?_) ?_ ⟨hcalls, hdone⟩
    (Or.inl ⟨hin, ?_⟩)
  · rw [cookedOn_append]
    exact (hM.made t).trans (by simp [cookedOn])
  · cases t with
    | vegan => exact Or.inr hidleV
    | nonVegan => exact Or.inl hin
  · rw [hidleV]
    exact hM.vegan
  · rw [untaken_take hB.accounts hitem rfl htake]
    exact hM.pending p k hpend

end Matches

/-- The clock a chef has read for the dish in hand was `now`. -/
def Ctrl.Stamped (now : Int) : Ctrl → Prop
  | .chef _ (.writeItem _ food)   => food.time = now
  | .chef _ (.writeCount _ slot)  => slot.food.time = now
  | .chef _ (.post slot)          => slot.food.time = now
  | _                             => True

theorem Ctrl.exists_stamped (c : Ctrl) : ∃ now, c.Stamped now := by
  cases c with
  | chef t c =>
      cases c with
      | writeItem count food => exact ⟨food.time, rfl⟩
      | writeCount count slot => exact ⟨slot.food.time, rfl⟩
      | post slot => exact ⟨slot.food.time, rfl⟩
      | _ => exact ⟨0, trivial⟩
  | customer t c => exact ⟨0, trivial⟩
  | hybrid c => exact ⟨0, trivial⟩

/-- **The simulation.**  A step of process `p` is one atomic step when it commits, and nothing in
    the atomic restaurant otherwise. -/
theorem Matches.step {rand : ι → Nat → Nat} {s s' : Kitchen ι} {A : Service ι} {a : Act ι}
    {now : Int} (hM : Matches rand s A) (h : step rand s a = some s')
    (hnow : (s.ctrl a.pid).Stamped now) :
    Matches rand s' (if (s.ctrl a.pid).commits then
      serve rand A a.pid now (s.ctrl a.pid).role else A) := by
  have hinv : ∀ t, TrayInv t s' := fun t => (hM.inv t).step h
  obtain ⟨m, hm, rfl⟩ := Option.map_eq_some_iff.mp h
  by_cases hq : (s.ctrl a.pid).commits = false ∧ (s.ctrl a.pid).settles = false
  · rw [if_neg (by simp [hq.1])]
    refine hM.quiet hinv (routine_quiet hm hq.1 hq.2 (fun i => rfl) ?_
      (hM.inStep a.pid))
    intro t hin
    exact ⟨_, hM.busy hin⟩
  -- the six commit steps, and the one that catches up
  · cases hc : s.ctrl a.pid with
    | chef t c =>
        rw [hc, routine_chef] at hm
        obtain ⟨m₀, hm₀, rfl⟩ := Option.map_eq_some_iff.mp hm
        rw [serve_chef]
        cases c with
        | postFull count => cases hm₀; exact hM.chef_passes hc now hinv
        | post slot =>
            cases hm₀
            rw [hc] at hnow
            have hcook := hM.chef_cooks hc hinv
            rw [show slot.food.time = now from hnow] at hcook
            exact hcook
        | _ => rw [hc] at hq; exact absurd ⟨rfl, rfl⟩ hq
    | customer t c =>
        rw [hc, routine_customer] at hm
        obtain ⟨m₀, hm₀, rfl⟩ := Option.map_eq_some_iff.mp hm
        rw [serve_customer]
        cases c with
        | postEmpty count => cases hm₀; exact hM.customer_passes hc hinv
        | post k item => cases hm₀; exact hM.customer_eats hc hinv
        | _ => rw [hc] at hq; exact absurd ⟨rfl, rfl⟩ hq
    | hybrid c =>
        rw [hc] at hm
        obtain ⟨m₀, hm₀, rfl⟩ := Option.map_eq_some_iff.mp hm
        cases c with
        | postEmptyVegan v n => cases hm₀; exact hM.hybrid_passes hc hinv
        | postVegan n k item => cases hm₀; exact hM.hybrid_eats hc hinv
        | postNonVegan v k item => cases hm₀; exact hM.hybrid_settles hc hinv
        | _ => rw [hc] at hq; exact absurd ⟨rfl, rfl⟩ hq

/-- Freshly opened, both restaurants are empty. -/
theorem Matches.opening (rand : ι → Nat → Nat) (role : ι → Role) :
    Matches rand (opening role) Service.opening := by
  have hidle : ∀ p next, ((SemaphoreKitchen.opening role).ctrl p).pending next = none := by
    intro p next
    show (role p).start.pending next = none
    cases role p <;> rfl
  refine ⟨TrayInv.opening role, fun _ => rfl, rfl, fun _ => rfl, ?_, ?_⟩
  · intro p k hk
    rw [hidle] at hk
    cases hk
  · intro p
    show (role p).start.InStep (rand p) _ 0 [] 0 []
    cases role p <;> exact ⟨rfl, rfl⟩

/-- **Every state of the code matches a serial one**: forward simulation over whole runs. -/
theorem matches_reach {role : ι → Role} {rand : ι → Nat → Nat} {s : Kitchen ι}
    (h : Reachable (step rand) (opening role) s) :
    ∃ A, Reachable (serialStep rand role) Service.opening A ∧ Matches rand s A := by
  have hsim : ∃ A, Reachable (serialStep rand role) Service.opening A ∧
      (Matches rand s A ∧ Staffed role s) := by
    refine h.simulate (R := fun s A => Matches rand s A ∧ Staffed role s)
      ⟨Matches.opening rand role, Staffed.opening role⟩ ?_
    rintro s A a s' ⟨hM, hS⟩ - hs
    obtain ⟨now, hnow⟩ : ∃ now, (s.ctrl a.pid).Stamped now := (s.ctrl a.pid).exists_stamped
    have hM' := hM.step hs hnow
    rw [hS.ctrl] at hM'
    by_cases hc : (s.ctrl a.pid).commits
    · rw [if_pos hc] at hM'
      exact ⟨_, .next (a := (a.pid, now)) .init trivial rfl, hM', hS.step hs⟩
    · rw [if_neg hc] at hM'
      exact ⟨A, .init, hM', hS.step hs⟩
  obtain ⟨A, hA, hM, -⟩ := hsim
  exact ⟨A, hA, hM⟩

end SemaphoreKitchen
