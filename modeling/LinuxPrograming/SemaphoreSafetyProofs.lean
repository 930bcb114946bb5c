import LinuxPrograming.SemaphoreInvariantProofs

/-!
# Dishes are neither lost nor duplicated; where the array is left

Three consequences of the tray invariant.

* **`trays_account_for_dishes`** — with the semaphore free, the live slots of a tray are exactly
  the dishes cooked on it that nobody has taken, in cooking order; whoever obtained a dish got one
  that the tray's own chef cooked, and nobody else got it.
* **`free_tail_zeroed`** — with the semaphore free, everything behind the live slots is zero, also
  after a dish has been taken from a full tray.
* **`slots_in_bounds`** — the shift loop reads `items[idx + 1]` up to `idx = count - 1`, and
  `memset` clears `items[count]`: on a full tray both are `items[MAX_ITEM]`, one slot behind the
  array (`full_tray_overruns`).  In every run in which no customer picks from a full tray every
  access stays inside; in no run does a process divide by zero.
-/

namespace SemaphoreKitchen

open Transition BinaryLock SlotArray

variable {ι : Type}

/-! ## Who did what -/

/-- `items[0 … count)`. -/
def liveSlots (b : ShareFoodBuffer) : List Slot := (List.range b.count).map b.items

theorem Stores.liveSlots {b : ShareFoodBuffer} {live : List Slot} (h : Stores b live) :
    liveSlots b = live := by
  rw [SemaphoreKitchen.liveSlots, h.count, h.items]
  exact map_layout live

/-- The chef of a tray. -/
def ownChef : ShmIdx → Role
  | .vegan    => .chefPortecelli
  | .nonVegan => .chefDonatello

/-- A deed fits a role: a dish is cooked by the tray's chef and taken by one of its customers. -/
def Deed.fits (r : Role) : Deed → Prop
  | .cooked t _ => r = ownChef t
  | .took .vegan _ => r = .veganCustomer ∨ r = .hybridCustomer
  | .took .nonVegan _ => r = .nonVeganCustomer ∨ r = .hybridCustomer
  | .passed => True

/-- A process stays in its routine and does what fits its role. -/
theorem routine_role {e : Env} {mem : Trays} {c : Ctrl} {m : Move Ctrl}
    (h : routine e mem c = some m) : m.ctrl.role = c.role ∧ ∀ d ∈ m.deeds, d.fits c.role := by
  cases c with
  | chef t c =>
      rw [routine_chef] at h
      obtain ⟨m₀, hm₀, rfl⟩ := Option.map_eq_some_iff.mp h
      refine ⟨by cases t <;> rfl, fun d hd => ?_⟩
      cases c with
      | wait => obtain ⟨mem', -, rfl⟩ := Option.map_eq_some_iff.mp hm₀; cases hd
      | post slot | postFull count =>
          cases hm₀
          rw [List.mem_singleton.mp hd]
          cases t <;> trivial
      | home => cases hm₀
      | loop | readCount | cook _ | writeItem _ _ | writeCount _ _ | log _ =>
          cases hm₀; cases hd
  | customer t c =>
      rw [routine_customer] at h
      obtain ⟨m₀, hm₀, rfl⟩ := Option.map_eq_some_iff.mp h
      refine ⟨by cases t <;> rfl, fun d hd => ?_⟩
      cases c with
      | wait => obtain ⟨mem', -, rfl⟩ := Option.map_eq_some_iff.mp hm₀; cases hd
      | post k item =>
          cases hm₀
          rw [List.mem_singleton.mp hd]
          cases t <;> exact Or.inl rfl
      | postEmpty count => cases hm₀; rw [List.mem_singleton.mp hd]; trivial
      | home => cases hm₀
      | loop | readCount | pickSleep _ | remove _ | log _ => cases hm₀; cases hd
  | hybrid c =>
      obtain ⟨m₀, hm₀, rfl⟩ := Option.map_eq_some_iff.mp h
      refine ⟨rfl, ?_⟩
      intro d hd
      cases c with
      | waitVegan | waitNonVegan =>
          obtain ⟨mem', -, rfl⟩ := Option.map_eq_some_iff.mp hm₀; cases hd
      | postVegan n k item | postNonVegan v k item =>
          cases hm₀
          rw [List.mem_singleton.mp hd]
          exact Or.inr rfl
      | postEmptyVegan v n => cases hm₀; rw [List.mem_singleton.mp hd]; trivial
      | home => cases hm₀
      | loop | readVegan | readNonVegan _ | postEmptyNonVegan | pickSleep _ _ | removeVegan _ _
      | removeNonVegan _ _ | log _ _ => cases hm₀; cases hd

/-- Every process is in the routine it was started with, and every logged deed fits its role. -/
structure Staffed (role : ι → Role) (s : Kitchen ι) : Prop where
  ctrl   : ∀ p, (s.ctrl p).role = role p
  events : ∀ e ∈ s.events, e.2.fits (role e.1)

theorem mem_cookedOn {t : ShmIdx} {d : Slot} {ds : List Deed} :
    d ∈ cookedOn t ds ↔ Deed.cooked t d ∈ ds := by
  simp only [cookedOn, List.mem_filterMap]
  constructor
  · rintro ⟨x, hx, heq⟩
    cases x with
    | cooked t' d' =>
        obtain ⟨rfl, rfl⟩ : t' = t ∧ d' = d := by simpa using heq
        exact hx
    | took t' d' => cases heq
    | passed => cases heq
  · intro hx
    exact ⟨_, hx, if_pos rfl⟩

theorem mem_takenFrom {t : ShmIdx} {d : Slot} {ds : List Deed} :
    d ∈ takenFrom t ds ↔ Deed.took t d ∈ ds := by
  simp only [takenFrom, List.mem_filterMap]
  constructor
  · rintro ⟨x, hx, heq⟩
    cases x with
    | cooked t' d' => cases heq
    | took t' d' =>
        obtain ⟨rfl, rfl⟩ : t' = t ∧ d' = d := by simpa using heq
        exact hx
    | passed => cases heq
  · intro hx
    exact ⟨_, hx, if_pos rfl⟩

variable [DecidableEq ι]

omit [DecidableEq ι] in
theorem Staffed.opening (role : ι → Role) : Staffed role (opening role) := by
  refine ⟨?_, fun e he => absurd he List.not_mem_nil⟩
  intro p
  show (role p).start.role = role p
  cases role p <;> rfl

theorem Staffed.step {role : ι → Role} {rand : ι → Nat → Nat} {s s' : Kitchen ι} {a : Act ι}
    (hS : Staffed role s) (h : step rand s a = some s') : Staffed role s' := by
  obtain ⟨m, hm, rfl⟩ := Option.map_eq_some_iff.mp h
  obtain ⟨hrole, hfits⟩ := routine_role hm
  constructor
  · intro p
    by_cases hp : p = a.pid
    · subst hp
      rw [commit_ctrl_self, hrole, hS.ctrl]
    · rw [commit_ctrl_other s m hp, hS.ctrl]
  · intro e he
    rcases List.mem_append.mp he with he | he
    · exact hS.events e he
    · obtain ⟨d, hd, rfl⟩ := List.mem_map.mp he
      exact hS.ctrl a.pid ▸ hfits d hd

theorem staffed_reach {role : ι → Role} {rand : ι → Nat → Nat} {s : Kitchen ι}
    (h : Reachable (step rand) (opening role) s) : Staffed role s :=
  h.invariant (Staffed.opening role) fun _ _ _ hS _ hs => hS.step hs

/-! ## No dish is lost, none is handed out twice -/

/-- **THE TRAYS ACCOUNT FOR EVERY DISH.**  Each cooking event has its own number, so the
    equality of lists says that every untaken dish is there once and in cooking order. -/
theorem trays_account_for_dishes {role : ι → Role} {rand : ι → Nat → Nat} {s : Kitchen ι}
    (h : Reachable (step rand) (opening role) s) :
    (∀ t, 0 < (s.food_shm t).sem →
      (s.food_shm t).buffer.count ≤ MAX_ITEM ∧
      liveSlots (s.food_shm t).buffer
        = (cookedOn t s.deeds).filter (· ∉ takenFrom t s.deeds)) ∧
    (∀ t, (cookedOn t s.deeds).map Slot.cooking
      = (List.range (cookedOn t s.deeds).length).map some) ∧
    (∀ t, (takenFrom t s.deeds).Nodup) ∧
    (∀ p t d, (p, Deed.took t d) ∈ s.events →
      (∃ q, role q = ownChef t ∧ (q, Deed.cooked t d) ∈ s.events) ∧ d.food.dish ∈ menu t ∧
      (role p = .veganCustomer → t = .vegan) ∧ (role p = .nonVeganCustomer → t = .nonVegan)) := by
  refine ⟨fun t hsem => ?_, fun t => ?_, fun t => ?_, fun p t d hp => ?_⟩ <;>
    obtain ⟨L, hB⟩ := trayInv_reach h t
  · have hst := hB.quiet (hB.lock.outside_of_pos hsem)
    refine ⟨hst.count ▸ hB.accounts.room, ?_⟩
    rw [hst.liveSlots, ← hB.accounts.made, ← hB.accounts.gone]
    rfl
  · rw [← hB.accounts.made]
    exact hB.accounts.serial
  · rw [← hB.accounts.gone]
    exact L.gone_nodup
  -- only what has been made can have gone, and only the own chef makes it
  · have hgone : d ∈ L.gone := by
      rw [hB.accounts.gone]
      exact mem_takenFrom.mpr (List.mem_map.mpr ⟨_, hp, rfl⟩)
    have hmade : d ∈ cookedOn t s.deeds := hB.accounts.made ▸ L.gone_made hgone
    obtain ⟨⟨q, x⟩, hq, heq⟩ := List.mem_map.mp (mem_cookedOn.mp hmade)
    cases heq
    have hS := staffed_reach h
    have hfits := hS.events _ hp
    refine ⟨⟨q, hS.events _ hq, hq⟩, hB.accounts.dish d (L.gone_made hgone), ?_⟩
    cases t <;> rcases hfits with hr | hr <;> simp [hr]

/-- One process of each of the two vegan roles: `false` cooks, `true` eats. -/
def veganPair : Bool → Role
  | false => .chefPortecelli
  | true  => .veganCustomer

/-- A run in which a dish is cooked and taken. -/
def oneMeal : List (Act Bool) :=
  List.replicate 8 { pid := false } ++ List.replicate 10 { pid := true }

/-- The theorem at the end of `oneMeal`. -/
theorem trays_account_for_one_meal :
    ∃ s : Kitchen Bool, Reachable (step fun _ _ => 0) (opening veganPair) s ∧
      (takenFrom .vegan s.deeds).length = 1 ∧ 0 < (s.food_shm .vegan).sem ∧
      (s.food_shm .vegan).buffer.count ≤ MAX_ITEM ∧
      liveSlots (s.food_shm .vegan).buffer
        = (cookedOn .vegan s.deeds).filter (· ∉ takenFrom .vegan s.deeds) := by
  obtain ⟨s, hs, hf⟩ : ∃ s : Kitchen Bool, Reachable (step fun _ _ => 0) (opening veganPair) s ∧
      ((takenFrom .vegan s.deeds).length, (s.food_shm .vegan).sem) = (1, 1) :=
    reachable_of_run_map _ _ oneMeal _ (by decide +kernel)
  have htaken : (takenFrom .vegan s.deeds).length = 1 := congrArg Prod.fst hf
  have hsem : (s.food_shm .vegan).sem = 1 := congrArg Prod.snd hf
  have hpos : 0 < (s.food_shm .vegan).sem := by omega
  exact ⟨s, hs, htaken, hpos, (trays_account_for_dishes hs).1 .vegan hpos⟩

/-! ## What is behind the live slots -/

/-- **NO STALE DISH BEHIND THE LIVE SLOTS.**  Every slot from `count` on is zero while the semaphore
    is free: those up to `MAX_ITEM - 1`, and the bytes at `items[MAX_ITEM]`, which a removal from a
    full tray pulls in and clears.  A zero slot has no `cooking`, so no chef has written it since
    it was last cleared. -/
theorem free_tail_zeroed {role : ι → Role} {rand : ι → Nat → Nat} {s : Kitchen ι}
    (h : Reachable (step rand) (opening role) s) (t : ShmIdx) (hsem : 0 < (s.food_shm t).sem) :
    ∀ i, (s.food_shm t).buffer.count ≤ i → (s.food_shm t).buffer.items i = .zeroed := by
  obtain ⟨L, hB⟩ := trayInv_reach h t
  have hst : Stores (s.food_shm t).buffer L.remaining := hB.quiet (hB.lock.outside_of_pos hsem)
  intro i hi
  rw [hst.items]
  exact layout_of_le (hst.count ▸ hi)

/-- Ten iterations of the chef, then one of a customer that picks the last dish. -/
def lastOfTen : List (Act Bool) :=
  List.replicate (8 * MAX_ITEM) { pid := false } ++ List.replicate 10 { pid := true }

/-- The theorem after a dish has been taken from a full tray: the last slot of the array and the
    one behind it. -/
theorem free_tail_zeroed_last_of_ten :
    ∃ s : Kitchen Bool, Reachable (step fun _ _ => 9) (opening veganPair) s ∧
      (takenFrom .vegan s.deeds).length = 1 ∧ (s.food_shm .vegan).buffer.count = 9 ∧
      (s.food_shm .vegan).buffer.items 9 = .zeroed ∧
      (s.food_shm .vegan).buffer.items MAX_ITEM = .zeroed := by
  obtain ⟨s, hs, hf⟩ : ∃ s : Kitchen Bool, Reachable (step fun _ _ => 9) (opening veganPair) s ∧
      ((takenFrom .vegan s.deeds).length, (s.food_shm .vegan).sem,
        (s.food_shm .vegan).buffer.count) = (1, 1, 9) :=
    reachable_of_run_map _ _ lastOfTen _ (by decide +kernel)
  simp only [Prod.mk.injEq] at hf
  obtain ⟨htaken, hsem, hcount⟩ := hf
  have htail := free_tail_zeroed hs .vegan (by omega)
  exact ⟨s, hs, htaken, hcount, htail 9 (by omega), htail MAX_ITEM (by rw [hcount]; decide)⟩

/-! ## Which slots a step touches -/

/-- The indices of the slots that the next step of a removal reads or writes; `rand` is what
    `rand()` returns next. -/
def Removal.slots (rand : Nat) : Removal → List Nat
  | .readItem count => [rand % count]
  | .shiftRead _ _ _ idx => [idx + 1]
  | .shiftWrite _ _ _ idx _ => [idx]
  | .clear count _ _ => [count]
  | .writeCount _ _ _ => []

/-- The indices of the slots of tray `t` that the next step reads or writes. -/
def Ctrl.slots (rand : Nat) (t : ShmIdx) : Ctrl → List Nat
  | .chef t' (.writeItem count _)      => if t' = t then [count] else []
  | .customer t' (.remove r)           => if t' = t then r.slots rand else []
  | .hybrid (.removeVegan _ r)         => if t = .vegan then r.slots rand else []
  | .hybrid (.removeNonVegan _ r)      => if t = .nonVegan then r.slots rand else []
  | _                                  => []

/-- The divisor of `rand() % count` in the next step, if it picks an index. -/
def Ctrl.divisor : Ctrl → Option Nat
  | .customer _ (.remove (.readItem count))
  | .hybrid (.removeVegan _ (.readItem count))
  | .hybrid (.removeNonVegan _ (.readItem count)) => some count
  | _ => none

/-- A removal step depends on the slots it lists only, and changes no other. -/
theorem Removal.step_frame {rand : Nat} {r : Removal} {b b' : ShareFoodBuffer}
    (hagree : ∀ i ∈ r.slots rand, b.items i = b'.items i) :
    (r.step rand b).2 = (r.step rand b').2 ∧
    ∀ i, i ∉ r.slots rand → (r.step rand b).1.items i = b.items i := by
  cases r with
  | readItem count =>
      refine ⟨?_, fun i _ => rfl⟩
      simp only [Removal.step, hagree _ (List.mem_singleton.mpr rfl)]
  | shiftRead count k item idx =>
      refine ⟨?_, fun i _ => rfl⟩
      simp only [Removal.step, hagree _ (List.mem_singleton.mpr rfl)]
  | shiftWrite count k item idx next =>
      refine ⟨rfl, ?_⟩
      intro i hi
      exact Function.update_of_ne (fun h => hi (List.mem_singleton.mpr h)) _ _
  | clear count k item =>
      refine ⟨rfl, ?_⟩
      intro i hi
      exact Function.update_of_ne (fun h => hi (List.mem_singleton.mpr h)) _ _
  | writeCount count k item => exact ⟨rfl, fun i _ => rfl⟩

/-- A step writes no slot but those listed. -/
theorem routine_writes {e : Env} {mem : Trays} {c : Ctrl} {m : Move Ctrl}
    (h : routine e mem c = some m) (t : ShmIdx) {i : Nat} (hi : i ∉ c.slots (e.rand 0) t) :
    (m.food_shm t).buffer.items i = (mem t).buffer.items i := by
  cases c with
  | chef t₀ c =>
      rw [routine_chef] at h
      obtain ⟨m₀, hm₀, rfl⟩ := Option.map_eq_some_iff.mp h
      by_cases ht : t = t₀
      · subst ht
        cases c with
        | wait =>
            obtain ⟨mem', hw, rfl⟩ := Option.map_eq_some_iff.mp hm₀
            simp [Move.map, (sem_wait_some hw).2.1]
        | postFull count => cases hm₀; simp [Move.map]
        | post slot => cases hm₀; simp [Move.map]
        | writeItem count food =>
            cases hm₀
            have hne : i ≠ count := fun h => hi (by simp [Ctrl.slots, h])
            simp [Move.map, hne]
        | writeCount count slot => cases hm₀; simp [Move.map]
        | home => cases hm₀
        | loop | readCount | cook _ | log _ => cases hm₀; rfl
      · exact congrArg (fun x : ShareMemory => x.buffer.items i) (chef_other hm₀ ht).1
  | customer t₀ c =>
      rw [routine_customer] at h
      obtain ⟨m₀, hm₀, rfl⟩ := Option.map_eq_some_iff.mp h
      by_cases ht : t = t₀
      · subst ht
        cases c with
        | wait =>
            obtain ⟨mem', hw, rfl⟩ := Option.map_eq_some_iff.mp hm₀
            simp [Move.map, (sem_wait_some hw).2.1]
        | postEmpty count => cases hm₀; simp [Move.map]
        | post k item => cases hm₀; simp [Move.map]
        | remove r =>
            cases hm₀
            have hi' : i ∉ r.slots (e.rand 0) := by simpa [Ctrl.slots] using hi
            simpa [Move.map] using (Removal.step_frame fun _ _ => rfl).2 i hi'
        | home => cases hm₀
        | loop | readCount | pickSleep _ | log _ => cases hm₀; rfl
      · exact congrArg (fun x : ShareMemory => x.buffer.items i) (customer_other hm₀ ht).1
  | hybrid c =>
      obtain ⟨m₀, hm₀, rfl⟩ := Option.map_eq_some_iff.mp h
      cases c with
      | waitVegan | waitNonVegan =>
          obtain ⟨mem', hw, rfl⟩ := Option.map_eq_some_iff.mp hm₀
          obtain ⟨-, hself, hother⟩ := sem_wait_some hw
          cases t <;> simp [Move.map, hself, hother]
      | postEmptyVegan | postEmptyNonVegan | postVegan | postNonVegan =>
          cases hm₀
          cases t <;> simp [Move.map, sem_post]
      | removeVegan n r | removeNonVegan v r =>
          cases hm₀
          cases t <;> simp only [Move.map, store_same,
            store_other _ _ (by decide : ShmIdx.vegan ≠ .nonVegan),
            store_other _ _ (by decide : ShmIdx.nonVegan ≠ .vegan)]
          exact (Removal.step_frame fun _ _ => rfl).2 i (by simpa [Ctrl.slots] using hi)
      | home => cases hm₀
      | loop | readVegan | readNonVegan _ | pickSleep _ _ | log _ _ => cases hm₀; rfl

/-- A step reads no slot but those listed: on trays that agree on them (and on the counts and
    semaphores) it goes to the same control point. -/
theorem routine_reads {e : Env} {mem mem' : Trays} {c : Ctrl}
    (hsem : ∀ t, (mem t).sem = (mem' t).sem)
    (hcount : ∀ t, (mem t).buffer.count = (mem' t).buffer.count)
    (hitems : ∀ t, ∀ i ∈ c.slots (e.rand 0) t, (mem t).buffer.items i = (mem' t).buffer.items i) :
    (routine e mem c).map Move.ctrl = (routine e mem' c).map Move.ctrl := by
  have hremove : ∀ t (r : Removal), (∀ i ∈ r.slots (e.rand 0),
      (mem t).buffer.items i = (mem' t).buffer.items i) →
      (r.step (e.rand 0) (mem t).buffer).2 = (r.step (e.rand 0) (mem' t).buffer).2 :=
    fun t r h => (Removal.step_frame h).1
  cases c with
  | chef t c =>
      rw [routine_chef, routine_chef]
      cases c with
      | wait => by_cases hpos : 0 < (mem' t).sem <;> simp [chef, sem_wait, hsem, hpos, Move.map]
      | readCount => simp [chef, hcount, Move.map]
      | _ => rfl
  | customer t c =>
      rw [routine_customer, routine_customer]
      cases c with
      | wait =>
          by_cases hpos : 0 < (mem' t).sem <;> simp [customer, sem_wait, hsem, hpos, Move.map]
      | readCount => simp [customer, hcount, Move.map]
      | remove r =>
          have := hremove t r fun i hi => hitems t i (by simpa [Ctrl.slots] using hi)
          simp [customer, Move.map, this]
      | _ => rfl
  | hybrid c =>
      cases c with
      | waitVegan =>
          by_cases hpos : 0 < (mem' .vegan).sem <;>
            simp [routine, hybridCustomer, sem_wait, hsem, hpos, Move.map]
      | waitNonVegan =>
          by_cases hpos : 0 < (mem' .nonVegan).sem <;>
            simp [routine, hybridCustomer, sem_wait, hsem, hpos, Move.map]
      | readVegan => simp [routine, hybridCustomer, hcount, Move.map]
      | readNonVegan v => simp [routine, hybridCustomer, hcount, Move.map]
      | removeVegan n r =>
          have := hremove .vegan r fun i hi => hitems .vegan i (by simpa [Ctrl.slots] using hi)
          simp [routine, hybridCustomer, Move.map, this]
      | removeNonVegan v r =>
          have := hremove .nonVegan r fun i hi =>
            hitems .nonVegan i (by simpa [Ctrl.slots] using hi)
          simp [routine, hybridCustomer, Move.map, this]
      | _ => rfl

/-- Every slot access of the next step of a process stays inside `items[MAX_ITEM]`, and `rand()`
    is not taken modulo `0`. -/
def Ctrl.InBounds (rand : Nat) (c : Ctrl) : Prop :=
  (∀ t, ∀ i ∈ c.slots rand t, i < MAX_ITEM) ∧ c.divisor ≠ some 0

/-- The tray from which the process is about to pick a dish. -/
def Ctrl.picksFrom : Ctrl → Option ShmIdx
  | .customer t (.remove (.readItem _))          => some t
  | .hybrid (.removeVegan _ (.readItem _))       => some .vegan
  | .hybrid (.removeNonVegan _ (.readItem _))    => some .nonVegan
  | _                                            => none

/-- The step does not pick a dish from a tray that holds `MAX_ITEM` dishes. -/
def PicksBelowFull (s : Kitchen ι) (a : Act ι) : Prop :=
  ∀ t ∈ (s.ctrl a.pid).picksFrom, (s.food_shm t).buffer.count ≠ MAX_ITEM

instance (s : Kitchen ι) (a : Act ι) : Decidable (PicksBelowFull s a) :=
  inferInstanceAs (Decidable (∀ t ∈ (s.ctrl a.pid).picksFrom, _))

/-- The count a removal works with, once it has picked. -/
def Removal.pickedCount : Removal → Option Nat
  | .readItem _ => none
  | .shiftRead count _ _ _ | .shiftWrite count _ _ _ _ | .clear count _ _
  | .writeCount count _ _ => some count

def Ctrl.pickedCount : Ctrl → Option Nat
  | .customer _ (.remove r)         => r.pickedCount
  | .hybrid (.removeVegan _ r)      => r.pickedCount
  | .hybrid (.removeNonVegan _ r)   => r.pickedCount
  | _                               => none

/-! ## In bounds, as long as nobody picks from a full tray -/

/-- One step of a removal fixes the count when it picks, and keeps it. -/
theorem Removal.step_pickedCount {rand n : Nat} {b : ShareFoodBuffer} {r r' : Removal}
    (h : (r.step rand b).2 = .inl r') (hn : r'.pickedCount = some n) :
    r.pickedCount = some n ∨ r = .readItem n := by
  have htest : ∀ count k item idx,
      (Removal.shiftTest count k item idx).pickedCount = some count := by
    intro count k item idx
    rw [Removal.shiftTest]
    split <;> rfl
  cases r with
  | readItem count =>
      cases h
      rw [htest] at hn
      exact Or.inr (congrArg _ (Option.some.inj hn))
  | shiftWrite count k item idx next =>
      cases h
      rw [htest] at hn
      exact Or.inl hn
  | shiftRead count k item idx => cases h; exact Or.inl hn
  | clear count k item => cases h; exact Or.inl hn
  | writeCount count k item => cases h

/-- A removal below the full tray stays inside the array. -/
theorem Removal.slots_lt {b : ShareFoodBuffer} {live : List Slot} {r : Removal} (rand : Nat)
    (hsh : r.Shape b live) (hroom : live.length ≤ MAX_ITEM)
    (hsmall : ∀ n, r.pickedCount = some n → n < MAX_ITEM) :
    (∀ i ∈ r.slots rand, i < MAX_ITEM) ∧ r ≠ .readItem 0 := by
  cases r with
  | readItem count =>
      obtain ⟨-, rfl, hpos⟩ := hsh
      constructor
      · intro i hi
        rw [List.mem_singleton.mp hi]
        exact Nat.lt_of_lt_of_le (Nat.mod_lt rand hpos) hroom
      · intro h
        have : live.length = 0 := Removal.readItem.inj h
        omega
  | shiftRead count k item idx =>
      obtain ⟨-, -, -, -, hidx⟩ := hsh
      -- the shift stops below the picked count, which is smaller than the array
      have := hsmall count rfl
      exact ⟨fun i hi => by rw [List.mem_singleton.mp hi]; omega, fun h => by cases h⟩
  | shiftWrite count k item idx next =>
      obtain ⟨-, -, -, -, hidx, -⟩ := hsh
      have := hsmall count rfl
      exact ⟨fun i hi => by rw [List.mem_singleton.mp hi]; omega, fun h => by cases h⟩
  | clear count k item =>
      have := hsmall count rfl
      exact ⟨fun i hi => by rw [List.mem_singleton.mp hi]; omega, fun h => by cases h⟩
  | writeCount count k item => exact ⟨fun i hi => (by cases hi), fun h => by cases h⟩

/-- One step of a routine fixes the count of a removal when it picks, and keeps it. -/
theorem routine_pickedCount {e : Env} {mem : Trays} {c : Ctrl} {m : Move Ctrl} {n : Nat}
    (h : routine e mem c = some m) (hn : m.ctrl.pickedCount = some n) :
    c.pickedCount = some n ∨ c.divisor = some n := by
  -- only the removal itself leads to a control point with a picked count
  have hremove : ∀ {b : ShareFoodBuffer} {r r' : Removal}, (r.step (e.rand 0) b).2 = .inl r' →
      r'.pickedCount = some n → r.pickedCount = some n ∨ r = .readItem n :=
    fun h hn => Removal.step_pickedCount h hn
  cases c with
  | chef t c =>
      rw [routine_chef] at h
      obtain ⟨m₀, -, rfl⟩ := Option.map_eq_some_iff.mp h
      cases hn
  | customer t c =>
      rw [routine_customer] at h
      obtain ⟨m₀, hm₀, rfl⟩ := Option.map_eq_some_iff.mp h
      cases c with
      | remove r =>
          cases hm₀
          cases hr : (r.step (e.rand 0) (mem t).buffer).2 with
          | inl r' =>
              simp only [Move.map, hr] at hn
              exact (hremove hr hn).imp_right fun heq => by rw [heq]; rfl
          | inr d => simp only [Move.map, hr] at hn; cases hn
      | loop =>
          cases hm₀
          cases hrun : e.running <;> simp [Move.map, hrun, Ctrl.pickedCount] at hn
      | readCount =>
          cases hm₀
          by_cases h0 : (mem t).buffer.count = 0 <;> simp [Move.map, h0, Ctrl.pickedCount] at hn
      | wait => obtain ⟨mem', -, rfl⟩ := Option.map_eq_some_iff.mp hm₀; cases hn
      | home => cases hm₀
      | postEmpty _ | pickSleep _ | post _ _ | log _ => cases hm₀; cases hn
  | hybrid c =>
      obtain ⟨m₀, hm₀, rfl⟩ := Option.map_eq_some_iff.mp h
      cases c with
      | removeVegan k r =>
          cases hm₀
          cases hr : (r.step (e.rand 0) (mem .vegan).buffer).2 with
          | inl r' =>
              simp only [Move.map, hr] at hn
              exact (hremove hr hn).imp_right fun heq => by rw [heq]; rfl
          | inr d => simp only [Move.map, hr] at hn; cases hn
      | removeNonVegan v r =>
          cases hm₀
          cases hr : (r.step (e.rand 0) (mem .nonVegan).buffer).2 with
          | inl r' =>
              simp only [Move.map, hr] at hn
              exact (hremove hr hn).imp_right fun heq => by rw [heq]; rfl
          | inr d => simp only [Move.map, hr] at hn; cases hn
      | loop =>
          cases hm₀
          cases hrun : e.running <;> simp [Move.map, hrun, Ctrl.pickedCount] at hn
      | readNonVegan v =>
          cases hm₀
          by_cases h0 : v = 0 ∨ (mem .nonVegan).buffer.count = 0 <;>
            simp [Move.map, h0, Ctrl.pickedCount] at hn
      | waitVegan | waitNonVegan =>
          obtain ⟨mem', -, rfl⟩ := Option.map_eq_some_iff.mp hm₀; cases hn
      | home => cases hm₀
      | readVegan | postEmptyVegan _ _ | postEmptyNonVegan | pickSleep _ _ | postVegan _ _ _
      | postNonVegan _ _ _ | log _ _ => cases hm₀; cases hn

omit [DecidableEq ι] in
/-- A process about to pick reads its count from the tray as it is. -/
theorem TrayInv.count_of_divisor {s : Kitchen ι} {p : ι} {n : Nat}
    (hinv : ∀ t, TrayInv t s) (hd : (s.ctrl p).divisor = some n) :
    ∃ t, (s.ctrl p).picksFrom = some t ∧ (s.food_shm t).buffer.count = n
      ∧ 0 < n ∧ n ≤ MAX_ITEM := by
  have hshape : ∀ t, (s.ctrl p).inside t →
      (∀ b live, (s.ctrl p).Shape t (cookedOn t s.deeds).length b live →
        Stores b live ∧ n = live.length ∧ 0 < n) →
      (s.food_shm t).buffer.count = n ∧ 0 < n ∧ n ≤ MAX_ITEM := by
    intro t hin hsh
    obtain ⟨L, hB⟩ := hinv t
    have hbusy := hB.busy p hin
    rw [hB.accounts.made] at hbusy
    obtain ⟨hst, hn, hpos⟩ := hsh _ _ hbusy
    exact ⟨hst.count.trans hn.symm, hpos, hn ▸ hB.accounts.room⟩
  -- a divisor is in use only between reading the count and reading the slot
  cases hc : s.ctrl p with
  | chef t c => rw [hc] at hd; cases hd
  | customer t c =>
      rw [hc] at hd hshape
      cases c with
      | remove r =>
          cases r with
          | readItem count => cases hd; exact ⟨t, rfl, hshape t ⟨rfl, rfl⟩ fun _ _ h => h⟩
          | _ => cases hd
      | _ => cases hd
  | hybrid c =>
      rw [hc] at hd hshape
      cases c with
      | removeVegan k r =>
          cases r with
          | readItem count => cases hd; exact ⟨.vegan, rfl, hshape .vegan rfl fun _ _ h => h⟩
          | _ => cases hd
      | removeNonVegan v r =>
          cases r with
          | readItem count =>
              cases hd; exact ⟨.nonVegan, rfl, hshape .nonVegan rfl fun _ _ h => h⟩
          | _ => cases hd
      | _ => cases hd

/-- What holds in every run in which nobody picks from a full tray. -/
structure Careful (s : Kitchen ι) : Prop where
  tray  : ∀ t, TrayInv t s
  small : ∀ p n, (s.ctrl p).pickedCount = some n → n < MAX_ITEM

theorem careful_reach {role : ι → Role} {rand : ι → Nat → Nat} {s : Kitchen ι}
    (h : Reach (step rand) PicksBelowFull (opening role) s) : Careful s := by
  refine h.invariant ⟨TrayInv.opening role, ?_⟩ ?_
  · intro p n hn
    have hn' : (role p).start.pickedCount = some n := hn
    cases hr : role p <;> rw [hr] at hn' <;> cases hn'
  · intro s a s' hC hok hs
    refine ⟨fun t => (hC.tray t).step hs, ?_⟩
    intro p n hn
    obtain ⟨m, hm, rfl⟩ := Option.map_eq_some_iff.mp hs
    by_cases hp : p = a.pid
    · subst hp
      rw [commit_ctrl_self] at hn
      rcases routine_pickedCount hm hn with hold | hdiv
      · exact hC.small _ n hold
      · obtain ⟨t, hpick, hcount, -, hle⟩ := TrayInv.count_of_divisor hC.tray hdiv
        have := hok t hpick
        omega
    · rw [commit_ctrl_other s m hp] at hn
      exact hC.small p n hn

omit [DecidableEq ι] in
/-- A careful state touches no slot outside the array. -/
theorem Careful.inBounds {s : Kitchen ι} (hC : Careful s) (p : ι) (rand : Nat) :
    (s.ctrl p).InBounds rand := by
  have hremove : ∀ t (r : Removal), (s.ctrl p).inside t →
      (∀ n b live, (s.ctrl p).Shape t n b live → r.Shape b live) →
      (∀ n, r.pickedCount = some n → (s.ctrl p).pickedCount = some n) →
      ∀ i ∈ r.slots rand, i < MAX_ITEM := by
    intro t r hin hsh hpick
    obtain ⟨L, hB⟩ := hC.tray t
    exact (Removal.slots_lt rand (hsh _ _ _ (hB.busy p hin)) hB.accounts.room
      fun n hn => hC.small p n (hpick n hn)).1
  constructor
  · intro t i hi
    cases hc : s.ctrl p with
    | chef t₀ c =>
        rw [hc] at hi
        cases c with
        | writeItem count food =>
            by_cases ht : t₀ = t
            · subst ht
              simp only [Ctrl.slots, if_true, List.mem_singleton] at hi
              obtain ⟨L, hB⟩ := hC.tray t₀
              have hsh := hB.busy p (by rw [hc]; exact ⟨rfl, rfl⟩)
              rw [hc] at hsh
              obtain ⟨-, -, hlt, -⟩ := hsh
              omega
            · simp [Ctrl.slots, ht] at hi
        | _ => cases hi
    | customer t₀ c =>
        rw [hc] at hi hremove
        cases c with
        | remove r =>
            by_cases ht : t₀ = t
            · subst ht
              simp only [Ctrl.slots, if_true] at hi
              exact hremove t₀ r ⟨rfl, rfl⟩ (fun _ _ _ h => h) (fun _ h => h) i hi
            · simp [Ctrl.slots, ht] at hi
        | _ => cases hi
    | hybrid c =>
        rw [hc] at hi hremove
        cases c with
        | removeVegan k r =>
            cases t with
            | vegan => exact hremove .vegan r rfl (fun _ _ _ h => h) (fun _ h => h) i hi
            | nonVegan => cases hi
        | removeNonVegan v r =>
            cases t with
            | vegan => cases hi
            | nonVegan => exact hremove .nonVegan r rfl (fun _ _ _ h => h) (fun _ h => h) i hi
        | _ => cases hi
  · intro hdiv
    obtain ⟨t, -, -, hpos, -⟩ := TrayInv.count_of_divisor hC.tray hdiv
    exact absurd hpos (Nat.lt_irrefl 0)

/-- **IN BOUNDS BELOW FULL TRAYS.**  No process ever divides by zero; and in every run in which no
    customer picks a dish from a tray that holds `MAX_ITEM` dishes, no process ever touches a slot
    outside `items[MAX_ITEM]`. -/
theorem slots_in_bounds {role : ι → Role} {rand : ι → Nat → Nat} {s : Kitchen ι}
    (h : Reachable (step rand) (opening role) s) (p : ι) :
    (s.ctrl p).divisor ≠ some 0 ∧
    (Reach (step rand) PicksBelowFull (opening role) s →
      (s.ctrl p).InBounds (rand p (s.calls p))) := by
  refine ⟨?_, fun hbelow => (careful_reach hbelow).inBounds p _⟩
  intro hdiv
  obtain ⟨t, -, -, hpos, -⟩ := TrayInv.count_of_divisor (trayInv_reach h) hdiv
  exact absurd hpos (Nat.lt_irrefl 0)

/-- The theorem in the middle of a meal: the customer has picked from a tray with one dish. -/
theorem slots_in_bounds_one_meal :
    ∃ s : Kitchen Bool, Reach (step fun _ _ => 0) PicksBelowFull (opening veganPair) s ∧
      (s.ctrl true).slots 0 .vegan = [1] ∧ (s.ctrl true).InBounds 0 := by
  obtain ⟨s, hs, hf⟩ : ∃ s : Kitchen Bool,
      Reach (step fun _ _ => 0) PicksBelowFull (opening veganPair) s ∧
      (s.ctrl true).slots 0 .vegan = [1] :=
    reach_of_runWhen_map _ _ _ (oneMeal.take 13) _ (by decide +kernel)
  exact ⟨s, hs, hf, (slots_in_bounds hs.reachable true).2 hs⟩

/-- Ten iterations of the chef, then a customer that picks the last dish of the full tray. -/
def overrun : List (Act Bool) :=
  List.replicate (8 * MAX_ITEM) { pid := false } ++ List.replicate 5 { pid := true }

/-- **A full tray overruns.**  With `MAX_ITEM` dishes on the tray the shift loop reads
    `items[MAX_ITEM]`. -/
theorem full_tray_overruns :
    ¬ ∀ (role : Bool → Role) (rand : Bool → Nat → Nat) (s : Kitchen Bool),
      Reachable (step rand) (opening role) s →
        ∀ p, (s.ctrl p).InBounds (rand p (s.calls p)) := by
  intro hall
  obtain ⟨s, hs, hf⟩ : ∃ s : Kitchen Bool, Reachable (step fun _ _ => 9) (opening veganPair) s ∧
      (s.ctrl true).slots 9 .vegan = [MAX_ITEM] :=
    reachable_of_run_map _ _ overrun _ (by decide +kernel)
  have hlt := (hall _ _ s hs true).1 .vegan MAX_ITEM (hf ▸ List.mem_singleton_self _)
  exact Nat.lt_irrefl _ hlt

end SemaphoreKitchen
