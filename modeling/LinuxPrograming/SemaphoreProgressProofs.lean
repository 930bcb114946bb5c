import LinuxPrograming.SemaphoreSoloProofs

/-!
# The semaphores of the trays: balance and progress

Chefs and customers of one tray hold one semaphore at a time; `hybridCustomer` waits for the
non-vegan semaphore while it holds the vegan one, and nobody waits the other way round.

* **`routine_inside`** — a `sem_wait` that succeeds enters a critical section and a `sem_post`
  leaves it, in every branch of every routine.
* **`not_blocked_of_inside_nonVegan`** — the order of the two semaphores: whoever holds the
  non-vegan one does not wait.
* **`semaphores_balanced`** — what follows for every reachable state and every iteration.
-/

namespace SemaphoreKitchen

open Transition BinaryLock

/-! ## Which semaphore a step posts -/

/-- The semaphore that the next step posts. -/
def Ctrl.posts : Ctrl → Option ShmIdx
  | .chef t (.postFull _)           => some t
  | .chef t (.post _)               => some t
  | .customer t (.postEmpty _)      => some t
  | .customer t (.post _ _)         => some t
  | .hybrid (.postEmptyVegan _ _)   => some .vegan
  | .hybrid .postEmptyNonVegan      => some .nonVegan
  | .hybrid (.postVegan _ _ _)      => some .vegan
  | .hybrid (.postNonVegan _ _ _)   => some .nonVegan
  | _                               => none

instance (c : Ctrl) (t : ShmIdx) : Decidable (c.inside t) :=
  match c with
  | .chef t' c     => inferInstanceAs (Decidable (t' = t ∧ c.inside = true))
  | .customer t' c => inferInstanceAs (Decidable (t' = t ∧ c.inside = true))
  | .hybrid c      => inferInstanceAs (Decidable (c.inside t = true))

/-- Who posts a semaphore has acquired it. -/
theorem Ctrl.inside_of_posts {c : Ctrl} {t : ShmIdx} (h : c.posts = some t) : c.inside t := by
  cases c with
  | chef t' c => cases c <;> cases h <;> exact ⟨rfl, rfl⟩
  | customer t' c => cases c <;> cases h <;> exact ⟨rfl, rfl⟩
  | hybrid c => cases c <;> cases h <;> rfl

/-- Entering and leaving, for a chef. -/
theorem chef_inside {t₀ t : ShmIdx} {names : List String} {e : Env} {mem : Trays} {c : ChefCtrl}
    {m : Move ChefCtrl} (h : chef t₀ names e mem c = some m) :
    (Ctrl.chef t₀ m.ctrl).inside t ↔
      (Ctrl.chef t₀ c).awaits = some t ∨
        ((Ctrl.chef t₀ c).inside t ∧ (Ctrl.chef t₀ c).posts ≠ some t) := by
  cases c with
  | loop => cases h; cases e.running <;> simp [Ctrl.inside, Ctrl.awaits, ChefCtrl.inside]
  | wait =>
      obtain ⟨mem', -, rfl⟩ := Option.map_eq_some_iff.mp h
      simp [Ctrl.inside, Ctrl.awaits, ChefCtrl.inside]
  | readCount =>
      cases h
      by_cases hfull : MAX_ITEM ≤ (mem t₀).buffer.count <;>
        simp [hfull, Ctrl.inside, Ctrl.awaits, Ctrl.posts, ChefCtrl.inside]
  | home => cases h
  | postFull _ | cook _ | writeItem _ _ | writeCount _ _ | post _ | log _ =>
      cases h
      simp [Ctrl.inside, Ctrl.awaits, Ctrl.posts, ChefCtrl.inside]

/-- Entering and leaving, for a customer of one tray. -/
theorem customer_inside {t₀ t : ShmIdx} {e : Env} {mem : Trays} {c : CustomerCtrl}
    {m : Move CustomerCtrl} (h : customer t₀ e mem c = some m) :
    (Ctrl.customer t₀ m.ctrl).inside t ↔
      (Ctrl.customer t₀ c).awaits = some t ∨
        ((Ctrl.customer t₀ c).inside t ∧ (Ctrl.customer t₀ c).posts ≠ some t) := by
  cases c with
  | loop => cases h; cases e.running <;> simp [Ctrl.inside, Ctrl.awaits, CustomerCtrl.inside]
  | wait =>
      obtain ⟨mem', -, rfl⟩ := Option.map_eq_some_iff.mp h
      simp [Ctrl.inside, Ctrl.awaits, CustomerCtrl.inside]
  | readCount =>
      cases h
      by_cases hempty : (mem t₀).buffer.count = 0 <;>
        simp [hempty, Ctrl.inside, Ctrl.awaits, Ctrl.posts, CustomerCtrl.inside]
  | remove r =>
      cases h
      -- the removal goes on, or the customer is about to post
      cases (r.step (e.rand 0) (mem t₀).buffer).2 <;>
        simp [Ctrl.inside, Ctrl.awaits, Ctrl.posts, CustomerCtrl.inside]
  | home => cases h
  | postEmpty _ | pickSleep _ | post _ _ | log _ =>
      cases h
      simp [Ctrl.inside, Ctrl.awaits, Ctrl.posts, CustomerCtrl.inside]

/-- Entering and leaving, for the customer of both trays. -/
theorem hybrid_inside {t : ShmIdx} {e : Env} {mem : Trays} {c : HybridCtrl} {m : Move HybridCtrl}
    (h : hybridCustomer e mem c = some m) :
    (Ctrl.hybrid m.ctrl).inside t ↔
      (Ctrl.hybrid c).awaits = some t ∨
        ((Ctrl.hybrid c).inside t ∧ (Ctrl.hybrid c).posts ≠ some t) := by
  cases c with
  | loop =>
      cases h
      cases e.running <;> cases t <;> simp [Ctrl.inside, Ctrl.awaits, HybridCtrl.inside]
  | waitVegan | waitNonVegan =>
      obtain ⟨mem', -, rfl⟩ := Option.map_eq_some_iff.mp h
      cases t <;> simp [Ctrl.inside, Ctrl.awaits, Ctrl.posts, HybridCtrl.inside]
  | readNonVegan v =>
      cases h
      by_cases hempty : v = 0 ∨ (mem .nonVegan).buffer.count = 0 <;>
        cases t <;> simp [hempty, Ctrl.inside, Ctrl.awaits, Ctrl.posts, HybridCtrl.inside]
  | removeVegan n r =>
      cases h
      cases (r.step (e.rand 0) (mem .vegan).buffer).2 <;>
        cases t <;> simp [Ctrl.inside, Ctrl.awaits, Ctrl.posts, HybridCtrl.inside]
  | removeNonVegan v r =>
      cases h
      cases (r.step (e.rand 0) (mem .nonVegan).buffer).2 <;>
        cases t <;> simp [Ctrl.inside, Ctrl.awaits, Ctrl.posts, HybridCtrl.inside]
  | home => cases h
  | readVegan | postEmptyVegan _ _ | postEmptyNonVegan | pickSleep _ _ | postVegan _ _ _
  | postNonVegan _ _ _ | log _ _ =>
      cases h
      cases t <;> simp [Ctrl.inside, Ctrl.awaits, Ctrl.posts, HybridCtrl.inside]

/-- **A step enters the section whose semaphore it acquires and leaves the one it posts.** -/
theorem routine_inside {e : Env} {mem : Trays} {c : Ctrl} {m : Move Ctrl}
    (h : routine e mem c = some m) (t : ShmIdx) :
    m.ctrl.inside t ↔ c.awaits = some t ∨ (c.inside t ∧ c.posts ≠ some t) := by
  cases c with
  | chef t₀ c =>
      rw [routine_chef] at h
      obtain ⟨m₀, hm₀, rfl⟩ := Option.map_eq_some_iff.mp h
      exact chef_inside hm₀
  | customer t₀ c =>
      rw [routine_customer] at h
      obtain ⟨m₀, hm₀, rfl⟩ := Option.map_eq_some_iff.mp h
      exact customer_inside hm₀
  | hybrid c =>
      obtain ⟨m₀, hm₀, rfl⟩ := Option.map_eq_some_iff.mp h
      exact hybrid_inside hm₀

/-! ## The order of the two semaphores -/

/-- **Who waits while holding a semaphore holds the vegan one and waits for the other.** -/
theorem Ctrl.order {c : Ctrl} {t t' : ShmIdx} (hin : c.inside t) (h : c.awaits = some t') :
    c = .hybrid .waitNonVegan ∧ t = .vegan ∧ t' = .nonVegan := by
  cases c with
  | chef t₀ c => cases c <;> cases h; cases hin.2
  | customer t₀ c => cases c <;> cases h; cases hin.2
  | hybrid c => cases c <;> cases h <;> cases t <;> first | exact ⟨rfl, rfl, rfl⟩ | cases hin

/-- Inside a section an iteration is under way. -/
theorem Ctrl.phase_of_inside {c : Ctrl} {t : ShmIdx} (h : c.inside t) :
    c.phase ≠ 0 ∧ c.atHome = false := by
  cases c with
  | chef t₀ c => cases c <;> first | (cases h.2; done) | simp [Ctrl.phase, Ctrl.atHome]
  | customer t₀ c => cases c <;> first | (cases h.2; done) | simp [Ctrl.phase, Ctrl.atHome]
  | hybrid c =>
      cases c <;> cases t <;> first | (cases h; done) | simp [Ctrl.phase, Ctrl.atHome]

/-- A process inside a section that moves does not wait afterwards. -/
theorem routine_awaits {e : Env} {mem : Trays} {c : Ctrl} {m : Move Ctrl} {t t' : ShmIdx}
    (h : routine e mem c = some m) (hc : c.inside t) (hm : m.ctrl.inside t') :
    m.ctrl.awaits = none := by
  cases haw : m.ctrl.awaits with
  | none => rfl
  | some u =>
      -- the step would have come from the first wait, which is outside
      obtain ⟨hctrl, -, -⟩ := Ctrl.order hm haw
      have hnear := (routine_onward h (Ctrl.phase_of_inside hc).1).nearer
      rw [hctrl] at hnear
      cases c with
      | chef t₀ c => cases c <;> simp [Ctrl.Nearer, Ctrl.phase, Ctrl.fuel] at hnear
      | customer t₀ c => cases c <;> simp [Ctrl.Nearer, Ctrl.phase, Ctrl.fuel] at hnear
      | hybrid c =>
          cases c with
          | waitVegan =>
              obtain ⟨m₀, hm₀, rfl⟩ := Option.map_eq_some_iff.mp h
              cases t <;> cases hc
          | _ => simp [Ctrl.Nearer, Ctrl.phase, Ctrl.fuel] at hnear

theorem nearer_wellFounded : WellFounded Ctrl.Nearer := by
  refine Subrelation.wf ?_
    (InvImage.wf (fun c : Ctrl => (c.phase, c.fuel)) (Prod.lex (Nat.lt_wfRel) (Nat.lt_wfRel)).wf)
  intro c c' h
  rcases h with hlt | ⟨heq, hlt⟩
  · exact Prod.Lex.left _ _ hlt
  · show Prod.Lex _ _ (c.phase, c.fuel) (c'.phase, c'.fuel)
    rw [heq]
    exact Prod.Lex.right _ hlt

variable {ι : Type}

/-- A semaphore keeps the process waiting. -/
def Blocked (s : Kitchen ι) (p : ι) : Prop :=
  ∃ t, (s.ctrl p).awaits = some t ∧ (s.food_shm t).sem = 0

/-- The semaphores agree with who is inside. -/
abbrev Locked (s : Kitchen ι) : Prop :=
  ∀ t, Owned (fun p => (s.ctrl p).inside t) (s.food_shm t).sem

theorem TrayInv.locked {s : Kitchen ι} (hinv : ∀ t, TrayInv t s) : Locked s := by
  intro t
  obtain ⟨L, hB⟩ := hinv t
  exact hB.lock

theorem Locked.holder {s : Kitchen ι} (hL : Locked s) {t : ShmIdx} (h : (s.food_shm t).sem = 0) :
    ∃ p, (s.ctrl p).inside t := by
  by_contra hno
  have h1 := (hL t).value_of_outside fun p hp => hno ⟨p, hp⟩
  omega

/-- The value is `0` exactly if exactly one process is inside. -/
theorem Locked.zero_iff {s : Kitchen ι} (hL : Locked s) (t : ShmIdx) :
    (s.food_shm t).sem = 0 ↔ ∃ p, (s.ctrl p).inside t ∧ ∀ q, (s.ctrl q).inside t → q = p := by
  constructor
  · intro h
    obtain ⟨p, hp⟩ := hL.holder h
    exact ⟨p, hp, fun q hq => (hL t).unique hp hq⟩
  · rintro ⟨p, hp, -⟩
    exact (hL t).value_of_inside hp

/-- **Whoever holds the non-vegan semaphore does not wait.** -/
theorem not_blocked_of_inside_nonVegan {s : Kitchen ι} {p : ι}
    (h : (s.ctrl p).inside .nonVegan) : ¬ Blocked s p := by
  rintro ⟨t, haw, -⟩
  have := (Ctrl.order h haw).2.1
  cases this

/-- Behind every process that is kept waiting there is one inside that can go on. -/
theorem Locked.unblocked_holder {s : Kitchen ι} (hL : Locked s) {p : ι} (h : Blocked s p) :
    ∃ q, (∃ t, (s.ctrl q).inside t) ∧ ¬ Blocked s q := by
  obtain ⟨t, -, hzero⟩ := h
  obtain ⟨q, hq⟩ := hL.holder hzero
  by_cases hblocked : Blocked s q
  · -- the holder waits for the non-vegan semaphore, whose holder does not
    obtain ⟨t', haw, hzero'⟩ := hblocked
    obtain ⟨-, -, rfl⟩ := Ctrl.order hq haw
    obtain ⟨r, hr⟩ := hL.holder hzero'
    exact ⟨r, ⟨_, hr⟩, not_blocked_of_inside_nonVegan hr⟩
  · exact ⟨q, ⟨t, hq⟩, hblocked⟩

/-- The members of `D` keep one another waiting. -/
def BlockOneAnother (s : Kitchen ι) (D : ι → Prop) : Prop :=
  (∃ p, D p) ∧ ∀ p, D p → ∃ t, (s.ctrl p).awaits = some t ∧ (s.food_shm t).sem = 0 ∧
    ∃ q, D q ∧ (s.ctrl q).inside t

theorem not_blockOneAnother (s : Kitchen ι) (D : ι → Prop) : ¬ BlockOneAnother s D := by
  rintro ⟨⟨p, hp⟩, hD⟩
  obtain ⟨t, -, -, q, hq, hin⟩ := hD p hp
  obtain ⟨t', haw, -, r, hr, hin'⟩ := hD q hq
  obtain ⟨-, -, rfl⟩ := Ctrl.order hin haw
  obtain ⟨t'', haw', hzero, -⟩ := hD r hr
  exact not_blocked_of_inside_nonVegan hin' ⟨t'', haw', hzero⟩

/-! ## The sections empty -/

variable [DecidableEq ι] {rand : ι → Nat → Nat}

/-- The process that moves is inside a section. -/
def InsideMove (s : Kitchen ι) (a : Act ι) : Prop := ∃ t, (s.ctrl a.pid).inside t

variable (rand) in
/-- A process that no semaphore stops leaves its sections, moving alone. -/
theorem drain_process (p : ι) (s : Kitchen ι) (hinv : ∀ t, TrayInv t s)
    (hfree : ∀ t, (s.ctrl p).awaits = some t → 0 < (s.food_shm t).sem) :
    ∃ s', Reach (step rand) InsideMove s s' ∧ (∀ t, TrayInv t s') ∧
      (∀ t, ¬ (s'.ctrl p).inside t) ∧ ∀ q, q ≠ p → s'.ctrl q = s.ctrl q := by
  induction hc : s.ctrl p using nearer_wellFounded.induction generalizing s with
  | h c ih =>
      subst hc
      by_cases hin : ∃ t, (s.ctrl p).inside t
      · obtain ⟨t, ht⟩ := hin
        obtain ⟨hphase, haway⟩ := Ctrl.phase_of_inside ht
        let a : Act ι := { pid := p }
        obtain ⟨m, hm⟩ := routine_some (s.env rand a) haway hfree
        have hs : step rand s a = some (s.commit p m) := by
          show (routine (s.env rand a) s.food_shm (s.ctrl p)).map (s.commit p) = _
          rw [hm]
          rfl
        have hinv' : ∀ t, TrayInv t (s.commit p m) := fun t => (hinv t).step hs
        have hctrl : (s.commit p m).ctrl p = m.ctrl := commit_ctrl_self s p m
        by_cases hin' : ∃ t, m.ctrl.inside t
        · -- still inside, and no longer at a `sem_wait`
          obtain ⟨t', ht'⟩ := hin'
          have hnone := routine_awaits hm ht ht'
          obtain ⟨s', hreach, hinv₁, hout, hothers⟩ :=
            ih m.ctrl (routine_onward hm hphase).nearer (s.commit p m) hinv'
              (fun u hu => by rw [hctrl, hnone] at hu; cases hu) hctrl
          refine ⟨s', .trans (.next .init ⟨t, ht⟩ hs) hreach, hinv₁, hout, ?_⟩
          intro q hq
          rw [hothers q hq, commit_ctrl_other s m hq]
        · refine ⟨s.commit p m, .next .init ⟨t, ht⟩ hs, hinv', ?_, ?_⟩
          · intro u hu
            rw [hctrl] at hu
            exact hin' ⟨u, hu⟩
          · intro q hq
            exact commit_ctrl_other s m hq
      · exact ⟨s, .init, hinv, fun t ht => hin ⟨t, ht⟩, fun _ _ => rfl⟩

variable (rand) in
/-- The section of one tray is left; the non-vegan one has to be left first. -/
theorem drain_tray (t : ShmIdx) (s : Kitchen ι) (hinv : ∀ t, TrayInv t s)
    (hfirst : t = .vegan → ∀ q, ¬ (s.ctrl q).inside .nonVegan) :
    ∃ s', Reach (step rand) InsideMove s s' ∧ (∀ t, TrayInv t s') ∧
      (∀ q, ¬ (s'.ctrl q).inside t) ∧
      ∀ q t', (s'.ctrl q).inside t' → (s.ctrl q).inside t' := by
  have hL := TrayInv.locked hinv
  by_cases hin : ∃ p, (s.ctrl p).inside t
  · obtain ⟨p, hp⟩ := hin
    have hfree : ∀ u, (s.ctrl p).awaits = some u → 0 < (s.food_shm u).sem := by
      intro u hu
      obtain ⟨-, hvegan, rfl⟩ := Ctrl.order hp hu
      have := (hL .nonVegan).value_of_outside (hfirst hvegan)
      omega
    obtain ⟨s', hreach, hinv', hout, hothers⟩ := drain_process rand p s hinv hfree
    have hsub : ∀ q t', (s'.ctrl q).inside t' → (s.ctrl q).inside t' := by
      intro q t' hq
      by_cases hqp : q = p
      · subst hqp
        exact absurd hq (hout t')
      · rw [← hothers q hqp]
        exact hq
    refine ⟨s', hreach, hinv', ?_, hsub⟩
    intro q hq
    have hqp := (hL t).unique hp (hsub q t hq)
    subst hqp
    exact hout t hq
  · exact ⟨s, .init, hinv, fun q hq => hin ⟨q, hq⟩, fun _ _ h => h⟩

variable (rand) in
/-- **The processes inside their sections can all leave**, without anyone else moving; then both
    semaphores are free. -/
theorem drain (s : Kitchen ι) (hinv : ∀ t, TrayInv t s) :
    ∃ s', Reach (step rand) InsideMove s s' ∧ ∀ t, (s'.food_shm t).sem = 1 := by
  obtain ⟨s₁, hreach₁, hinv₁, hout₁, -⟩ :=
    drain_tray rand .nonVegan s hinv fun h => by cases h
  obtain ⟨s₂, hreach₂, hinv₂, hout₂, hsub⟩ :=
    drain_tray rand .vegan s₁ hinv₁ fun _ => hout₁
  refine ⟨s₂, hreach₁.trans hreach₂, ?_⟩
  intro t
  refine (TrayInv.locked hinv₂ t).value_of_outside ?_
  intro q hq
  cases t with
  | vegan => exact hout₂ q hq
  | nonVegan => exact hout₁ q (hsub q .nonVegan hq)

/-! ## Each iteration posts what it acquires -/

/-- Process `p` acquires the semaphore of tray `t`. -/
def Acquires (p : ι) (t : ShmIdx) (s : Kitchen ι) (a : Act ι) : Prop :=
  a.pid = p ∧ (s.ctrl p).awaits = some t

/-- Process `p` posts the semaphore of tray `t`. -/
def Posts (p : ι) (t : ShmIdx) (s : Kitchen ι) (a : Act ι) : Prop :=
  a.pid = p ∧ (s.ctrl p).posts = some t

instance (p : ι) (t : ShmIdx) (s : Kitchen ι) (a : Act ι) : Decidable (Acquires p t s a) := by
  unfold Acquires
  infer_instance

instance (p : ι) (t : ShmIdx) (s : Kitchen ι) (a : Act ι) : Decidable (Posts p t s a) := by
  unfold Posts
  infer_instance

/-- **One step**: what is acquired and not posted is held. -/
theorem step_balance {p : ι} {t : ShmIdx} {s s' : Kitchen ι} {a : Act ι}
    (h : step rand s a = some s') :
    (if (s'.ctrl p).inside t then 1 else 0) + (if Posts p t s a then 1 else 0)
      = (if (s.ctrl p).inside t then 1 else 0) + (if Acquires p t s a then 1 else 0) := by
  obtain ⟨m, hm, rfl⟩ := Option.map_eq_some_iff.mp h
  by_cases hp : a.pid = p
  · subst hp
    have hin := routine_inside hm t
    rw [commit_ctrl_self]
    by_cases haw : (s.ctrl a.pid).awaits = some t
    · have hout := Ctrl.outside_of_awaits haw
      have hpost : ¬ (s.ctrl a.pid).posts = some t := fun hpo => hout (Ctrl.inside_of_posts hpo)
      rw [if_pos (hin.mpr (Or.inl haw)), if_neg hout, if_neg fun hc => hpost hc.2,
        if_pos ⟨rfl, haw⟩]
    · by_cases hpost : (s.ctrl a.pid).posts = some t
      · have hout : ¬ m.ctrl.inside t := fun hc => (hin.mp hc).elim haw fun hc => hc.2 hpost
        rw [if_neg hout, if_pos (Ctrl.inside_of_posts hpost), if_pos ⟨rfl, hpost⟩,
          if_neg fun hc => haw hc.2]
      · have hkeep : m.ctrl.inside t ↔ (s.ctrl a.pid).inside t := by
          rw [hin]
          simp [haw, hpost]
        rw [if_neg fun hc : Posts a.pid t s a => hpost hc.2,
          if_neg fun hc : Acquires a.pid t s a => haw hc.2]
        simp only [hkeep]
  · rw [commit_ctrl_other s m fun h => hp h.symm, if_neg fun hc : Posts p t s a => hp hc.1,
      if_neg fun hc : Acquires p t s a => hp hc.1]

/-- **The value of a semaphore** changes by what is acquired and posted, and in no other way. -/
theorem step_sem {s s' : Kitchen ι} {a : Act ι} (h : step rand s a = some s')
    (t : ShmIdx) :
    (s'.food_shm t).sem + (if Acquires a.pid t s a then 1 else 0)
      = (s.food_shm t).sem + (if Posts a.pid t s a then 1 else 0) := by
  have hbal := step_balance (p := a.pid) (t := t) h
  obtain ⟨m, hm, rfl⟩ := Option.map_eq_some_iff.mp h
  rw [commit_ctrl_self] at hbal
  show (m.food_shm t).sem + _ = _
  cases routine_trayMove hm t with
  | untouched hc hc' hmem =>
      rw [if_neg hc, if_neg hc'] at hbal
      rw [hmem]
      omega
  | enter hc hc' hpos hmem =>
      rw [if_neg hc, if_pos hc'] at hbal
      rw [hmem]
      show (s.food_shm t).sem - 1 + _ = _
      omega
  | work hc hc' hsem =>
      rw [if_pos hc, if_pos hc'] at hbal
      rw [hsem]
      omega
  | leave hc hc' hmem =>
      rw [if_pos hc, if_neg hc'] at hbal
      rw [hmem]
      show (s.food_shm t).sem + 1 + _ = _
      omega

/-- A process at its loop test holds nothing. -/
theorem Ctrl.outside_of_loop {c : Ctrl} (h : c.phase = 0) (t : ShmIdx) : ¬ c.inside t :=
  fun hin => (Ctrl.phase_of_inside hin).1 h

/-- **THE SEMAPHORES ARE BALANCED.**  In every reachable state: the value of a semaphore is `0` or
    `1`, and `0` exactly if exactly one process is inside; whenever a process is kept waiting, one
    inside a section is not; no processes keep one another waiting, and those inside can leave, so
    that both semaphores are free.  From one loop test to another a process posts each semaphore
    as often as it has acquired it. -/
theorem semaphores_balanced {role : ι → Role} {s : Kitchen ι}
    (h : Reachable (step rand) (opening role) s) :
    (∀ t, ((s.food_shm t).sem = 0 ∨ (s.food_shm t).sem = 1) ∧
      ((s.food_shm t).sem = 0 ↔
        ∃ p, (s.ctrl p).inside t ∧ ∀ q, (s.ctrl q).inside t → q = p)) ∧
    (∀ p, Blocked s p → ∃ q, (∃ t, (s.ctrl q).inside t) ∧ ¬ Blocked s q) ∧
    (∀ D, ¬ BlockOneAnother s D) ∧
    (∃ s', Reach (step rand) InsideMove s s' ∧ ∀ t, (s'.food_shm t).sem = 1) ∧
    (∀ p acts s', run (step rand) s acts = some s' →
      (s.ctrl p).phase = 0 → (s'.ctrl p).phase = 0 →
      ∀ t, countSteps (step rand) (Posts p t) s acts
        = countSteps (step rand) (Acquires p t) s acts) ∧
    ∀ a s', step rand s a = some s' → ∀ t,
      (s'.food_shm t).sem + (if Acquires a.pid t s a then 1 else 0)
        = (s.food_shm t).sem + (if Posts a.pid t s a then 1 else 0) := by
  have hinv : ∀ t, TrayInv t s := trayInv_reach h
  have hL := TrayInv.locked hinv
  refine ⟨?_, fun p => hL.unblocked_holder, not_blockOneAnother s, drain rand s hinv, ?_,
    fun a s' hs => step_sem hs⟩
  · intro t
    refine ⟨?_, hL.zero_iff t⟩
    have := (hL t).le_one
    omega
  · intro p acts s' hrun hstart hend t
    have hbal := countSteps_balance (p := Acquires p t) (q := Posts p t)
      (g := fun u => if (u.ctrl p).inside t then 1 else 0)
      (fun u a u' hu => step_balance hu) hrun
    simp only [if_neg (Ctrl.outside_of_loop hstart t), if_neg (Ctrl.outside_of_loop hend t),
      Nat.zero_add] at hbal
    exact hbal

/-- The hybrid customer and the chef of the non-vegan tray. -/
def chefAndHybrid : Bool → Role
  | false => .hybridCustomer
  | true  => .chefDonatello

/-- The hybrid customer, with the vegan semaphore in hand, waits for the chef, who can go on. -/
theorem semaphores_balanced_hybrid_waits :
    ∃ s : Kitchen Bool, Reachable (step fun _ _ => 0) (opening chefAndHybrid) s ∧
      Blocked s false ∧ (s.ctrl false).inside .vegan ∧
      ∃ q, (∃ t, (s.ctrl q).inside t) ∧ ¬ Blocked s q := by
  obtain ⟨s, hs, hf⟩ := reachable_of_run_map (step fun _ _ => 0) (opening chefAndHybrid)
    (List.replicate 2 { pid := true } ++ List.replicate 2 { pid := false })
    (fun s => ((s.ctrl false).awaits, (s.food_shm .nonVegan).sem,
      decide ((s.ctrl false).inside .vegan)))
    (c := (some .nonVegan, 0, true)) (by decide +kernel)
  obtain ⟨haw, hsem, hin⟩ : (s.ctrl false).awaits = some .nonVegan ∧
      (s.food_shm .nonVegan).sem = 0 ∧ decide ((s.ctrl false).inside .vegan) = true := by
    simpa using hf
  have hblocked : Blocked s false := ⟨.nonVegan, haw, hsem⟩
  exact ⟨s, hs, hblocked, of_decide_eq_true hin, (semaphores_balanced hs).2.1 false hblocked⟩

end SemaphoreKitchen
