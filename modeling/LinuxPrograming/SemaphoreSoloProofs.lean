import LinuxPrograming.SemaphoreSerialProofs

/-!
# Every atomic step is an uninterrupted iteration of the code

`serve` says what one iteration does as a whole.  Here the code itself is run that way: process
`p` moves alone, from the test of its loop to the next test, while every other process stands
outside the critical sections (`Alone`).

* **`routine_onward`** — a step of an iteration leads on, by `phase` or by what is left of a
  removal, so an undisturbed iteration ends.
* **`routine_some`** — a process is never blocked except at a `sem_wait`.
* **`solo_iteration`** — hence one iteration run alone realises one `serve`; that it has the right
  effect is the simulation `Matches.step` again.
* **`critical_sections_serializable`** — every quiescent state of an interleaved run is reached,
  tray for tray and deed for deed, by iterations run one at a time.
-/

namespace SemaphoreKitchen

open Transition BinaryLock

/-! ## An iteration leads on -/

/-- What is left of a removal, an upper bound on its steps. -/
def Removal.fuel : Removal → Nat
  | .readItem count              => 2 * count + 4
  | .shiftRead count _ _ idx     => 2 * (count - idx) + 3
  | .shiftWrite count _ _ idx _  => 2 * (count - idx) + 2
  | .clear _ _ _                 => 1
  | .writeCount _ _ _            => 0

/-- How far an iteration is from the next test of the loop. -/
def Ctrl.phase : Ctrl → Nat
  | .chef _ .loop                     => 0
  | .chef _ .wait                     => 7
  | .chef _ .readCount                => 6
  | .chef _ (.cook _)                 => 5
  | .chef _ (.writeItem _ _)          => 4
  | .chef _ (.writeCount _ _)         => 3
  | .chef _ (.post _)                 => 2
  | .chef _ (.postFull _)             => 1
  | .chef _ (.log _)                  => 1
  | .chef _ .home                     => 1
  | .customer _ .loop                 => 0
  | .customer _ .wait                 => 6
  | .customer _ .readCount            => 5
  | .customer _ (.pickSleep _)        => 4
  | .customer _ (.remove _)           => 3
  | .customer _ (.post _ _)           => 2
  | .customer _ (.postEmpty _)        => 1
  | .customer _ (.log _)              => 1
  | .customer _ .home                 => 1
  | .hybrid .loop                     => 0
  | .hybrid .waitVegan                => 10
  | .hybrid .waitNonVegan             => 9
  | .hybrid .readVegan                => 8
  | .hybrid (.readNonVegan _)         => 7
  | .hybrid (.pickSleep _ _)          => 6
  | .hybrid (.removeVegan _ _)        => 5
  | .hybrid (.postVegan _ _ _)        => 4
  | .hybrid (.removeNonVegan _ _)     => 3
  | .hybrid (.postNonVegan _ _ _)     => 2
  | .hybrid (.postEmptyVegan _ _)     => 2
  | .hybrid .postEmptyNonVegan        => 1
  | .hybrid (.log _ _)                => 1
  | .hybrid .home                     => 1

/-- The steps left in the removal a process is in. -/
def Ctrl.fuel : Ctrl → Nat
  | .customer _ (.remove r)          => r.fuel
  | .hybrid (.removeVegan _ r)       => r.fuel
  | .hybrid (.removeNonVegan _ r)    => r.fuel
  | _                                => 0

/-- The process has left its loop for good. -/
def Ctrl.atHome : Ctrl → Bool
  | .chef _ .home | .customer _ .home | .hybrid .home => true
  | _ => false

/-- The iteration has begun and its commit step is still to come. -/
def Ctrl.due : Ctrl → Bool
  | .chef _ .loop | .chef _ (.log _) | .chef _ .home
  | .customer _ .loop | .customer _ (.log _) | .customer _ .home
  | .hybrid .loop | .hybrid .postEmptyNonVegan | .hybrid (.removeNonVegan _ _)
  | .hybrid (.postNonVegan _ _ _) | .hybrid (.log _ _) | .hybrid .home => false
  | _ => true

theorem Ctrl.due_of_commits {c : Ctrl} (h : c.commits = true) : c.due = true := by
  cases c with
  | chef t c => cases c <;> first | rfl | cases h
  | customer t c => cases c <;> first | rfl | cases h
  | hybrid c => cases c <;> first | rfl | cases h

/-- Nearer to the end of the iteration. -/
def Ctrl.Nearer (c' c : Ctrl) : Prop :=
  c'.phase < c.phase ∨ c'.phase = c.phase ∧ c'.fuel < c.fuel

theorem Removal.step_fuel {rand : Nat} {b : ShareFoodBuffer} {r r' : Removal}
    (h : (r.step rand b).2 = .inl r') : r'.fuel < r.fuel := by
  have htest : ∀ count k item idx,
      (Removal.shiftTest count k item idx).fuel ≤ 2 * (count - idx) + 3 ∧
      (idx < count ∨ (Removal.shiftTest count k item idx).fuel = 1) := by
    intro count k item idx
    rw [Removal.shiftTest]
    by_cases hlt : idx < count
    · rw [if_pos hlt]
      exact ⟨Nat.le_refl _, Or.inl hlt⟩
    · rw [if_neg hlt]
      exact ⟨by simp only [Removal.fuel]; omega, Or.inr rfl⟩
  cases r with
  | readItem count =>
      cases h
      have := (htest count (rand % count) (b.items (rand % count)) (rand % count)).1
      simp only [Removal.fuel] at this ⊢
      omega
  | shiftRead count k item idx => cases h; simp only [Removal.fuel]; omega
  | shiftWrite count k item idx next =>
      cases h
      have hle := htest count k item (idx + 1)
      simp only [Removal.fuel] at hle ⊢
      omega
  | clear count k item => cases h; simp only [Removal.fuel]; omega
  | writeCount count k item => cases h

/-- What a step of an iteration does to its progress. -/
structure Onward (c c' : Ctrl) : Prop where
  nearer : c'.Nearer c
  due    : c'.due = (c.due && !c.commits)
  away   : c'.atHome = false

section Onward

variable {e : Env} {mem : Trays}

theorem chef_onward {t : ShmIdx} {names : List String} {c : ChefCtrl} {m : Move ChefCtrl}
    (h : chef t names e mem c = some m) (hc : (Ctrl.chef t c).phase ≠ 0) :
    Onward (.chef t c) (.chef t m.ctrl) := by
  cases c with
  | loop => exact absurd rfl hc
  | wait =>
      obtain ⟨mem', -, rfl⟩ := Option.map_eq_some_iff.mp h
      exact ⟨Or.inl (by simp [Ctrl.phase]), rfl, rfl⟩
  | readCount =>
      cases h
      by_cases hfull : MAX_ITEM ≤ (mem t).buffer.count
      · simp only [if_pos hfull]
        exact ⟨Or.inl (by simp [Ctrl.phase]), rfl, rfl⟩
      · simp only [if_neg hfull]
        exact ⟨Or.inl (by simp [Ctrl.phase]), rfl, rfl⟩
  | home => cases h
  | postFull _ | cook _ | writeItem _ _ | writeCount _ _ | post _ | log _ =>
      cases h; exact ⟨Or.inl (by simp [Ctrl.phase]), rfl, rfl⟩

theorem customer_onward {t : ShmIdx} {c : CustomerCtrl} {m : Move CustomerCtrl}
    (h : customer t e mem c = some m) (hc : (Ctrl.customer t c).phase ≠ 0) :
    Onward (.customer t c) (.customer t m.ctrl) := by
  cases c with
  | loop => exact absurd rfl hc
  | wait =>
      obtain ⟨mem', -, rfl⟩ := Option.map_eq_some_iff.mp h
      exact ⟨Or.inl (by simp [Ctrl.phase]), rfl, rfl⟩
  | readCount =>
      cases h
      by_cases hempty : (mem t).buffer.count = 0
      · simp only [if_pos hempty]
        exact ⟨Or.inl (by simp [Ctrl.phase]), rfl, rfl⟩
      · simp only [if_neg hempty]
        exact ⟨Or.inl (by simp [Ctrl.phase]), rfl, rfl⟩
  | remove r =>
      cases h
      cases hout : (r.step (e.rand 0) (mem t).buffer).2 with
      | inl r' => exact ⟨Or.inr ⟨rfl, Removal.step_fuel hout⟩, rfl, rfl⟩
      | inr d => exact ⟨Or.inl (by simp [Ctrl.phase]), rfl, rfl⟩
  | home => cases h
  | postEmpty _ | pickSleep _ | post _ _ | log _ =>
      cases h; exact ⟨Or.inl (by simp [Ctrl.phase]), rfl, rfl⟩

theorem hybrid_onward {c : HybridCtrl} {m : Move HybridCtrl} (h : hybridCustomer e mem c = some m)
    (hc : (Ctrl.hybrid c).phase ≠ 0) : Onward (.hybrid c) (.hybrid m.ctrl) := by
  cases c with
  | loop => exact absurd rfl hc
  | waitVegan | waitNonVegan =>
      obtain ⟨mem', -, rfl⟩ := Option.map_eq_some_iff.mp h
      exact ⟨Or.inl (by simp [Ctrl.phase]), rfl, rfl⟩
  | readNonVegan v =>
      cases h
      by_cases hempty : v = 0 ∨ (mem .nonVegan).buffer.count = 0
      · simp only [if_pos hempty]
        exact ⟨Or.inl (by simp [Ctrl.phase]), rfl, rfl⟩
      · simp only [if_neg hempty]
        exact ⟨Or.inl (by simp [Ctrl.phase]), rfl, rfl⟩
  | removeVegan n r =>
      cases h
      cases hout : (r.step (e.rand 0) (mem .vegan).buffer).2 with
      | inl r' => exact ⟨Or.inr ⟨rfl, Removal.step_fuel hout⟩, rfl, rfl⟩
      | inr d => exact ⟨Or.inl (by simp [Ctrl.phase]), rfl, rfl⟩
  | removeNonVegan v r =>
      cases h
      cases hout : (r.step (e.rand 0) (mem .nonVegan).buffer).2 with
      | inl r' => exact ⟨Or.inr ⟨rfl, Removal.step_fuel hout⟩, rfl, rfl⟩
      | inr d => exact ⟨Or.inl (by simp [Ctrl.phase]), rfl, rfl⟩
  | home => cases h
  | readVegan | postEmptyVegan _ _ | postEmptyNonVegan | pickSleep _ _ | postVegan _ _ _
  | postNonVegan _ _ _ | log _ _ => cases h; exact ⟨Or.inl (by simp [Ctrl.phase]), rfl, rfl⟩

/-- **A step inside an iteration leads on towards the next loop test.** -/
theorem routine_onward {c : Ctrl} {m : Move Ctrl} (h : routine e mem c = some m)
    (hc : c.phase ≠ 0) : Onward c m.ctrl := by
  cases c with
  | chef t c =>
      rw [routine_chef] at h
      obtain ⟨m₀, hm₀, rfl⟩ := Option.map_eq_some_iff.mp h
      exact chef_onward hm₀ hc
  | customer t c =>
      rw [routine_customer] at h
      obtain ⟨m₀, hm₀, rfl⟩ := Option.map_eq_some_iff.mp h
      exact customer_onward hm₀ hc
  | hybrid c =>
      obtain ⟨m₀, hm₀, rfl⟩ := Option.map_eq_some_iff.mp h
      exact hybrid_onward hm₀ hc

/-- The clock a chef reads during one iteration stays in the dish. -/
theorem routine_stamped {c : Ctrl} {m : Move Ctrl} (h : routine e mem c = some m)
    (hc : c.Stamped e.now) : m.ctrl.Stamped e.now := by
  cases c with
  | chef t c =>
      rw [routine_chef] at h
      obtain ⟨m₀, hm₀, rfl⟩ := Option.map_eq_some_iff.mp h
      cases c with
      | loop => cases hm₀; cases e.running <;> simp [Move.map, Ctrl.Stamped]
      | wait => obtain ⟨mem', -, rfl⟩ := Option.map_eq_some_iff.mp hm₀; trivial
      | readCount =>
          cases hm₀
          by_cases hfull : MAX_ITEM ≤ (mem t).buffer.count <;>
            simp [Move.map, hfull, Ctrl.Stamped]
      | cook count => cases hm₀; rfl
      | writeItem count food => cases hm₀; exact hc
      | writeCount count slot => cases hm₀; exact hc
      | home => cases hm₀
      | postFull _ | post _ | log _ => cases hm₀; trivial
  | customer t c =>
      rw [routine_customer] at h
      obtain ⟨m₀, -, rfl⟩ := Option.map_eq_some_iff.mp h
      trivial
  | hybrid c =>
      obtain ⟨m₀, -, rfl⟩ := Option.map_eq_some_iff.mp h
      trivial

/-- The semaphore a process is about to wait for. -/
def Ctrl.awaits : Ctrl → Option ShmIdx
  | .chef t .wait          => some t
  | .customer t .wait      => some t
  | .hybrid .waitVegan     => some .vegan
  | .hybrid .waitNonVegan  => some .nonVegan
  | _                      => none

theorem Ctrl.outside_of_awaits {c : Ctrl} {t : ShmIdx} (h : c.awaits = some t) : ¬ c.inside t := by
  cases c with
  | chef t' c => cases c <;> cases h; exact fun hin => by cases hin.2
  | customer t' c => cases c <;> cases h; exact fun hin => by cases hin.2
  | hybrid c => cases c <;> cases h <;> exact fun hin => by cases hin

/-- **Nothing but a semaphore blocks a process.** -/
theorem routine_some (e : Env) {mem : Trays} {c : Ctrl} (haway : c.atHome = false)
    (hsem : ∀ t, c.awaits = some t → 0 < (mem t).sem) : ∃ m, routine e mem c = some m := by
  have hwait : ∀ t, c.awaits = some t → ∃ mem', sem_wait mem t = some mem' :=
    fun t ht => ⟨_, if_pos (hsem t ht)⟩
  cases c with
  | chef t c =>
      rw [routine_chef]
      cases c with
      | wait => obtain ⟨mem', hw⟩ := hwait t rfl; exact ⟨_, by rw [chef, hw]; rfl⟩
      | home => cases haway
      | _ => exact ⟨_, rfl⟩
  | customer t c =>
      rw [routine_customer]
      cases c with
      | wait => obtain ⟨mem', hw⟩ := hwait t rfl; exact ⟨_, by rw [customer, hw]; rfl⟩
      | home => cases haway
      | _ => exact ⟨_, rfl⟩
  | hybrid c =>
      cases c with
      | waitVegan =>
          obtain ⟨mem', hw⟩ := hwait .vegan rfl
          exact ⟨_, by rw [routine, hybridCustomer, hw]; rfl⟩
      | waitNonVegan =>
          obtain ⟨mem', hw⟩ := hwait .nonVegan rfl
          exact ⟨_, by rw [routine, hybridCustomer, hw]; rfl⟩
      | home => cases haway
      | _ => exact ⟨_, rfl⟩

end Onward

/-- A process at its loop test is where its routine starts. -/
theorem Ctrl.eq_start {c : Ctrl} (h : c.phase = 0) : c = c.role.start := by
  cases c with
  | chef t c => cases c <;> first | (cases t <;> rfl) | cases h
  | customer t c => cases c <;> first | (cases t <;> rfl) | cases h
  | hybrid c => cases c <;> first | rfl | cases h

/-! ## Running alone -/

variable {ι : Type} [DecidableEq ι]

/-- No process but the one that moves is inside a critical section. -/
def Alone (s : Kitchen ι) (a : Act ι) : Prop := ∀ q, q ≠ a.pid → ∀ t, ¬ (s.ctrl q).inside t

/-- No process is inside a critical section. -/
def Quiescent (s : Kitchen ι) : Prop := ∀ p t, ¬ (s.ctrl p).inside t

/-- Every process is about to test its loop condition. -/
def AtRest (role : ι → Role) (s : Kitchen ι) : Prop := ∀ p, s.ctrl p = (role p).start

theorem Role.start_outside (r : Role) (t : ShmIdx) : ¬ r.start.inside t := by
  cases r <;> simp [Role.start, Ctrl.inside, ChefCtrl.inside, CustomerCtrl.inside,
    HybridCtrl.inside]

omit [DecidableEq ι] in
theorem AtRest.quiescent {role : ι → Role} {s : Kitchen ι} (h : AtRest role s) : Quiescent s :=
  fun p t => h p ▸ (role p).start_outside t

/-- The state `u` of process `p` running its iteration alone: the others are at rest, and `u`
    matches `A` before the commit step and `A'` after it. -/
structure Solo (rand : ι → Nat → Nat) (role : ι → Role) (p : ι) (now : Int) (A A' : Service ι)
    (u : Kitchen ι) : Prop where
  others  : ∀ q, q ≠ p → u.ctrl q = (role q).start
  staffed : Staffed role u
  away    : (u.ctrl p).atHome = false
  stamped : (u.ctrl p).Stamped now
  matched : Matches rand u (if (u.ctrl p).due then A else A')

namespace Solo

variable {rand : ι → Nat → Nat} {role : ι → Role} {p : ι} {now : Int} {A A' : Service ι}
variable {u v : Kitchen ι}

/-- Running alone, `p` finds every semaphore it waits for free. -/
theorem unblocked (hS : Solo rand role p now A A' u) :
    ∃ v, step rand u { pid := p, now := now } = some v := by
  obtain ⟨m, hm⟩ := routine_some (u.env rand { pid := p, now := now }) hS.away fun t ht => by
      obtain ⟨L, hB, -⟩ := hS.matched.books t
      have hno : ∀ q, ¬ (u.ctrl q).inside t := by
        intro q
        by_cases hq : q = p
        · exact hq ▸ Ctrl.outside_of_awaits ht
        · exact hS.others q hq ▸ (role q).start_outside t
      rw [hB.lock.value_of_outside hno]
      exact Nat.one_pos
  exact ⟨_, congrArg (Option.map _) hm⟩

theorem alone (hS : Solo rand role p now A A' u) : Alone u { pid := p, now := now } :=
  fun q hq t => hS.others q hq ▸ (role q).start_outside t

/-- One step of the iteration. -/
theorem advance (hS : Solo rand role p now A (serve rand A p now (role p)) u)
    (h : step rand u { pid := p, now := now } = some v) (hc : (u.ctrl p).phase ≠ 0) :
    Solo rand role p now A (serve rand A p now (role p)) v ∧ (v.ctrl p).Nearer (u.ctrl p) := by
  have hM := hS.matched.step h hS.stamped
  have hstaffed := hS.staffed.step h
  obtain ⟨m, hm, rfl⟩ := Option.map_eq_some_iff.mp h
  have hon := routine_onward hm hc
  refine ⟨⟨?_, hstaffed, ?_, ?_, ?_⟩, ?_⟩
  · intro q hq
    rw [commit_ctrl_other u m hq]
    exact hS.others q hq
  · rw [commit_ctrl_self]
    exact hon.away
  · rw [commit_ctrl_self]
    exact routine_stamped hm hS.stamped
  · rw [commit_ctrl_self, hon.due]
    have hrole : (u.ctrl p).role = role p := hS.staffed.ctrl p
    -- the abstract step is taken exactly when the iteration commits
    cases hcommit : (u.ctrl p).commits with
    | true =>
        have hdue : (u.ctrl p).due = true := Ctrl.due_of_commits hcommit
        simp only [hcommit, hdue, hrole, if_true] at hM
        simpa using hM
    | false =>
        simp only [hcommit, Bool.false_eq_true, if_false] at hM
        simpa using hM
  · rw [commit_ctrl_self]
    exact hon.nearer

/-- **The iteration ends**, having done what `serve` says. -/
theorem finish {u : Kitchen ι} (hS : Solo rand role p now A (serve rand A p now (role p)) u) :
    ∃ v, Reach (step rand) Alone u v ∧ AtRest role v ∧
      Matches rand v (serve rand A p now (role p)) := by
  -- by well-founded recursion on the phase and, inside a removal, on what is left to shift
  by_cases hc : (u.ctrl p).phase = 0
  · have hstart : u.ctrl p = (role p).start := hS.staffed.ctrl p ▸ Ctrl.eq_start hc
    refine ⟨u, .init, ?_, ?_⟩
    · intro q
      by_cases hq : q = p
      · exact hq ▸ hstart
      · exact hS.others q hq
    · have hM := hS.matched
      rw [hstart, show (role p).start.due = false by cases role p <;> rfl] at hM
      exact hM
  · obtain ⟨v, hv⟩ := hS.unblocked
    obtain ⟨hS', hnear⟩ := hS.advance hv hc
    obtain ⟨w, hw, hrest, hM⟩ := hS'.finish
    exact ⟨w, Reach.trans (.next .init hS.alone hv) hw, hrest, hM⟩
termination_by ((u.ctrl p).phase, (u.ctrl p).fuel)
decreasing_by
  rcases hnear with hlt | ⟨heq, hlt⟩
  · exact Prod.Lex.left _ _ hlt
  · rw [heq]
    exact Prod.Lex.right _ hlt

end Solo

/-- While `is_running`, a process goes on from its loop test to wait for a semaphore. -/
theorem routine_start (e : Env) (mem : Trays) (hrun : e.running = true) (r : Role) :
    ∃ m, routine e mem r.start = some m ∧ m.ctrl.due = true ∧ m.ctrl.atHome = false
      ∧ ∀ now, m.ctrl.Stamped now := by
  cases r <;> exact ⟨_, rfl, by simp [Move.map, hrun, Ctrl.due],
    by simp [Move.map, hrun, Ctrl.atHome], fun now => by simp [Move.map, hrun, Ctrl.Stamped]⟩

/-- **One iteration, run alone, is one atomic step.** -/
theorem solo_iteration {rand : ι → Nat → Nat} {role : ι → Role} {u : Kitchen ι} {A : Service ι}
    (hM : Matches rand u A) (hS : Staffed role u) (hrest : AtRest role u) (p : ι) (now : Int) :
    ∃ v, Reach (step rand) Alone u v ∧ AtRest role v ∧
      Matches rand v (serve rand A p now (role p)) := by
  obtain ⟨m, hm, hdue, haway, hstamp⟩ :=
    routine_start (u.env rand { pid := p, now := now }) u.food_shm rfl (role p)
  have hs : step rand u { pid := p, now := now } = some (u.commit p m) := by
    show (routine _ _ (u.ctrl p)).map _ = _
    rw [hrest p, hm]
    rfl
  have hstart : ((role p).start).Stamped now ∧ ((role p).start).commits = false := by
    cases role p <;> exact ⟨trivial, rfl⟩
  -- the loop test is the first step; it does nothing to the trays
  have hM' := hM.step hs (show (u.ctrl p).Stamped now from hrest p ▸ hstart.1)
  rw [show (u.ctrl p).commits = false from hrest p ▸ hstart.2] at hM'
  have hsolo : Solo rand role p now A (serve rand A p now (role p)) (u.commit p m) := by
    refine ⟨?_, hS.step hs, ?_, ?_, ?_⟩
    · intro q hq
      rw [commit_ctrl_other u m hq, hrest q]
    · rw [commit_ctrl_self]
      exact haway
    · rw [commit_ctrl_self]
      exact hstamp now
    · rw [commit_ctrl_self, hdue]
      exact hM'
  obtain ⟨v, hv, hrest', hend⟩ := hsolo.finish
  have halone : Alone u { pid := p, now := now } := fun q _ t => hrest.quiescent q t
  exact ⟨v, Reach.trans (.next .init halone hs) hv, hrest', hend⟩

/-- **Every serial execution is an execution of the code** in which each iteration runs alone. -/
theorem serial_realised {rand : ι → Nat → Nat} {role : ι → Role} {A : Service ι}
    (h : Reachable (serialStep rand role) Service.opening A) :
    ∃ u, Reach (step rand) Alone (opening role) u ∧ AtRest role u ∧ Matches rand u A := by
  have hsim : ∃ u, Reach (step rand) Alone (opening role) u ∧
      (AtRest role u ∧ Matches rand u A) ∧ Staffed role u := by
    refine h.simulate (R := fun A u => (AtRest role u ∧ Matches rand u A) ∧ Staffed role u)
      ⟨⟨fun _ => rfl, Matches.opening rand role⟩, Staffed.opening role⟩ ?_
    rintro A u ⟨p, now⟩ A' ⟨⟨hrest, hM⟩, hS⟩ - hs
    cases hs
    obtain ⟨v, hv, hrest', hM'⟩ := solo_iteration hM hS hrest p now
    refine ⟨v, hv, ⟨hrest', hM'⟩, ?_⟩
    exact hv.invariant hS fun _ _ _ hS _ hs => hS.step hs
  obtain ⟨u, hu, ⟨hrest, hM⟩, -⟩ := hsim
  exact ⟨u, hu, hrest, hM⟩

/-! ## Serializability -/

omit [DecidableEq ι] in
theorem Ctrl.pending_of_outside {c : Ctrl} (h : ¬ c.inside .nonVegan) (next : Nat) :
    c.pending next = none := by
  cases hk : c.pending next with
  | none => rfl
  | some k => exact absurd (Ctrl.inside_of_pending hk) h

/-- Outside the critical sections a process is level with the atomic restaurant. -/
theorem Ctrl.InStep.level {rand : Nat → Nat} {live : ShmIdx → List Slot} {calls calls' : Nat}
    {done done' : List Deed} {c : Ctrl} (h : c.InStep rand live calls done calls' done')
    (hout : ∀ t, ¬ c.inside t) : done' = done := by
  cases c with
  | chef t c =>
      have hc : c.inside = false := by simpa [Ctrl.inside] using hout t
      cases c <;> first | exact h.2 | cases hc
  | customer t c =>
      have hc : c.inside = false := by simpa [Ctrl.inside] using hout t
      cases c <;> first | exact h.2 | cases hc
  | hybrid c =>
      have hc : c.inside .nonVegan = false := by simpa [Ctrl.inside] using hout .nonVegan
      cases c <;> first | exact h.2 | cases hc

/-- With nobody inside, the code's trays and deeds are those of the atomic restaurant. -/
theorem Matches.settle {rand : ι → Nat → Nat} {s : Kitchen ι} {A : Service ι}
    (hM : Matches rand s A) (hq : Quiescent s) :
    (∀ t, Stores (s.food_shm t).buffer (A.tray t)) ∧ ∀ p, s.deedsOf p = A.deeds p := by
  have htray : ∀ t, A.tray t = untaken t s.deeds := by
    intro t
    cases t with
    | vegan => exact hM.vegan
    | nonVegan => exact hM.settled fun p => Ctrl.pending_of_outside (hq p .nonVegan) _
  refine ⟨?_, fun p => ((hM.inStep p).level (hq p)).symm⟩
  intro t
  obtain ⟨L, hB, hlive⟩ := hM.books t
  rw [htray, ← hlive]
  exact hB.quiet fun p => hq p t

/-- The dishes on a tray determine its buffer. -/
theorem Stores.unique {b b' : ShareFoodBuffer} {live : List Slot} (h : Stores b live)
    (h' : Stores b' live) : b = b' := by
  cases b
  cases b'
  exact congr (congrArg _ (h.count.trans h'.count.symm)) (h.items.trans h'.items.symm)

/-- **THE CRITICAL SECTIONS ARE SERIALIZABLE.**  Whatever the interleaving, when no process is
    inside a critical section both trays and everything each process cooked, obtained or passed
    are what some serial execution `A` of whole iterations gives, and `u` is the code after that
    very execution, with each iteration run alone. -/
theorem critical_sections_serializable {role : ι → Role} {rand : ι → Nat → Nat} {s : Kitchen ι}
    (h : Reachable (step rand) (opening role) s) (hq : Quiescent s) :
    ∃ (A : Service ι) (u : Kitchen ι),
      Reachable (serialStep rand role) Service.opening A ∧
      Reach (step rand) Alone (opening role) u ∧ Quiescent u ∧
      (∀ t, liveSlots (s.food_shm t).buffer = A.tray t ∧
        (s.food_shm t).buffer = (u.food_shm t).buffer) ∧
      ∀ p, s.deedsOf p = A.deeds p ∧ u.deedsOf p = A.deeds p := by
  obtain ⟨A, hA, hM⟩ := matches_reach h
  obtain ⟨u, hu, hrest, hMu⟩ := serial_realised hA
  obtain ⟨hstores, hdeeds⟩ := hM.settle hq
  obtain ⟨hstores', hdeeds'⟩ := hMu.settle hrest.quiescent
  refine ⟨A, u, hA, hu, hrest.quiescent, fun t => ⟨(hstores t).liveSlots, ?_⟩, ?_⟩
  · exact (hstores t).unique (hstores' t)
  · intro p
    exact ⟨hdeeds p, hdeeds' p⟩

/-- One process of each role; while the hybrid customer is at work on the non-vegan tray, a second
    vegan dish is cooked. -/
def earlyRelease : List (Act Role) :=
  List.replicate 8 { pid := .chefPortecelli } ++ List.replicate 8 { pid := .chefDonatello } ++
  List.replicate 13 { pid := .hybridCustomer } ++ List.replicate 8 { pid := .chefPortecelli } ++
  List.replicate 6 { pid := .hybridCustomer }

/-- The theorem at the end of `earlyRelease`. -/
theorem early_release_serializable :
    ∃ s : Kitchen Role, Reachable (step fun _ _ => 0) (opening id) s ∧
      (s.deedsOf .hybridCustomer).length = 2 ∧
      ∃ (A : Service Role) (u : Kitchen Role),
        Reachable (serialStep (fun _ _ => 0) id) Service.opening A ∧
        Reach (step fun _ _ => 0) Alone (opening id) u ∧ Quiescent u ∧
        (∀ t, liveSlots (s.food_shm t).buffer = A.tray t ∧
          (s.food_shm t).buffer = (u.food_shm t).buffer) ∧
        ∀ p, s.deedsOf p = A.deeds p ∧ u.deedsOf p = A.deeds p := by
  obtain ⟨s, hs, hf⟩ : ∃ s : Kitchen Role, Reachable (step fun _ _ => 0) (opening id) s ∧
      ((s.deedsOf .hybridCustomer).length, (s.ctrl .chefDonatello).phase,
        (s.ctrl .chefPortecelli).phase, (s.ctrl .nonVeganCustomer).phase,
        (s.ctrl .veganCustomer).phase, (s.ctrl .hybridCustomer).phase) = (2, 0, 0, 0, 0, 0) :=
    reachable_of_run_map _ _ earlyRelease _ (by decide +kernel)
  simp only [Prod.mk.injEq] at hf
  obtain ⟨hdeeds, hphase⟩ := hf
  have hrest : AtRest id s := by
    intro p
    have hp : (s.ctrl p).phase = 0 := by cases p <;> simp [hphase]
    exact (staffed_reach hs).ctrl p ▸ Ctrl.eq_start hp
  exact ⟨s, hs, hdeeds, critical_sections_serializable hs hrest.quiescent⟩

end SemaphoreKitchen
