import LinuxPrograming.SemaphoreKitchenProofs
import LinuxPrograming.BinaryLockProofs
import LinuxPrograming.SlotArrayProofs
import LinuxPrograming.LedgerProofs

/-!
# The invariant of the trays

Everything the restaurant's safety rests on is one statement about one tray (`TrayInv`): some
`Ledger` accounts for the dishes cooked on it and taken from it; its semaphore counts the process
inside its critical section; and the buffer stores exactly what remains in the ledger — or, while
a process is inside, what that process has made of it so far (`Ctrl.Shape`).

The proof never looks at interleavings.  `routine_trayMove` says once what a step of any routine
can do to any tray — leave it alone, enter, work inside, leave — and `TrayInv.step` checks the four
kinds against the ledger and the lock.
-/

namespace SemaphoreKitchen

open Transition BinaryLock SlotArray

variable {ι : Type}

/-! ## Who is inside a tray's critical section -/

def ChefCtrl.inside : ChefCtrl → Bool
  | .readCount | .postFull _ | .cook _ | .writeItem _ _ | .writeCount _ _ | .post _ => true
  | .loop | .wait | .log _ | .home => false

def CustomerCtrl.inside : CustomerCtrl → Bool
  | .readCount | .postEmpty _ | .pickSleep _ | .remove _ | .post _ _ => true
  | .loop | .wait | .log _ | .home => false

def HybridCtrl.inside : ShmIdx → HybridCtrl → Bool
  | .vegan, .waitNonVegan => true
  | .nonVegan, .postEmptyNonVegan | .nonVegan, .removeNonVegan _ _
  | .nonVegan, .postNonVegan _ _ _ => true
  | _, .readVegan | _, .readNonVegan _ | _, .postEmptyVegan _ _ | _, .pickSleep _ _
  | _, .removeVegan _ _ | _, .postVegan _ _ _ => true
  | _, _ => false

/-- The process has acquired the semaphore of tray `t` and not posted it yet. -/
def Ctrl.inside (t : ShmIdx) : Ctrl → Prop
  | .chef t' c     => t' = t ∧ c.inside = true
  | .customer t' c => t' = t ∧ c.inside = true
  | .hybrid c      => c.inside t = true

/-! ## What a process inside has made of the buffer -/

/-- The dishes a chef cooks for a tray. -/
def menu : ShmIdx → List String
  | .vegan    => vegan_name
  | .nonVegan => non_vegan_name

/-- The buffer stores the dishes `live`, and every byte behind them is zero. -/
structure Stores (b : ShareFoodBuffer) (live : List Slot) : Prop where
  count : b.count = live.length
  items : b.items = layout .zeroed live

/-- A count and an index read from a tray that stores `live`, with the dish found there. -/
structure Picked (live : List Slot) (count food_idx : Nat) (item : Slot) : Prop where
  count : count = live.length
  item  : live[food_idx]? = some item

namespace Removal

/-- The buffer during a removal from a tray that stored `live`. -/
def Shape (b : ShareFoodBuffer) (live : List Slot) : Removal → Prop
  | .readItem count => Stores b live ∧ count = live.length ∧ 0 < count
  | .shiftRead count k item idx =>
      Picked live count k item ∧ b.count = count ∧ b.items = shifted .zeroed live k idx
        ∧ k ≤ idx ∧ idx < count
  | .shiftWrite count k item idx next =>
      Picked live count k item ∧ b.count = count ∧ b.items = shifted .zeroed live k idx
        ∧ k ≤ idx ∧ idx < count ∧ next = layout .zeroed live (idx + 1)
  | .clear count k item | .writeCount count k item =>
      Picked live count k item ∧ b.count = count ∧ b.items = layout .zeroed (live.eraseIdx k)

end Removal

/-- A dish just cooked for tray `t`, the `n`-th one there. -/
structure Fresh (t : ShmIdx) (n : Nat) (slot : Slot) : Prop where
  cooking : slot.cooking = some n
  dish    : slot.food.dish ∈ menu t

def ChefCtrl.Shape (t : ShmIdx) (n : Nat) (b : ShareFoodBuffer) (live : List Slot) :
    ChefCtrl → Prop
  | .postFull count => Stores b live ∧ count = live.length ∧ MAX_ITEM ≤ count
  | .cook count => Stores b live ∧ count = live.length ∧ count < MAX_ITEM
  | .writeItem count food =>
      Stores b live ∧ count = live.length ∧ count < MAX_ITEM ∧ food.dish ∈ menu t
  | .writeCount count slot =>
      count = live.length ∧ count < MAX_ITEM ∧ Fresh t n slot
        ∧ b.count = count ∧ b.items = layout .zeroed (live ++ [slot])
  | .post slot => live.length < MAX_ITEM ∧ Fresh t n slot ∧ Stores b (live ++ [slot])
  | _ => Stores b live

def CustomerCtrl.Shape (b : ShareFoodBuffer) (live : List Slot) : CustomerCtrl → Prop
  | .postEmpty count => Stores b live ∧ count = live.length ∧ count = 0
  | .pickSleep count => Stores b live ∧ count = live.length ∧ 0 < count
  | .remove r => r.Shape b live
  | .post k item => live[k]? = some item ∧ Stores b (live.eraseIdx k)
  | _ => Stores b live

def HybridCtrl.Shape (b : ShareFoodBuffer) (live : List Slot) : ShmIdx → HybridCtrl → Prop
  | .vegan, .readNonVegan v => Stores b live ∧ v = live.length
  | .vegan, .postEmptyVegan v n => Stores b live ∧ v = live.length ∧ (v = 0 ∨ n = 0)
  | .nonVegan, .postEmptyVegan v n => Stores b live ∧ n = live.length ∧ (v = 0 ∨ n = 0)
  | .vegan, .pickSleep v _ => Stores b live ∧ v = live.length ∧ 0 < v
  | .vegan, .removeVegan _ r => r.Shape b live
  | .vegan, .postVegan _ k item => live[k]? = some item ∧ Stores b (live.eraseIdx k)
  | .nonVegan, .pickSleep _ n | .nonVegan, .removeVegan n _ | .nonVegan, .postVegan n _ _ =>
      Stores b live ∧ n = live.length ∧ 0 < n
  | .nonVegan, .removeNonVegan _ r => r.Shape b live
  | .nonVegan, .postNonVegan _ k item => live[k]? = some item ∧ Stores b (live.eraseIdx k)
  | _, _ => Stores b live

/-- The buffer of tray `t` while a process at `c` is inside: `live` is what the tray stored when it
    entered, `n` the number of dishes cooked there before. -/
def Ctrl.Shape (t : ShmIdx) (n : Nat) (b : ShareFoodBuffer) (live : List Slot) : Ctrl → Prop
  | .chef _ c     => c.Shape t n b live
  | .customer _ c => c.Shape b live
  | .hybrid c     => c.Shape b live t

/-! ## One step of a removal -/

theorem Removal.shiftTest_shape {b : ShareFoodBuffer} {live : List Slot} {count k idx : Nat}
    {item : Slot} (hp : Picked live count k item) (hb : b.count = count)
    (hitems : b.items = shifted .zeroed live k idx) (hk : k ≤ idx) (hidx : idx ≤ count) :
    (Removal.shiftTest count k item idx).Shape b live := by
  rw [Removal.shiftTest]
  by_cases hlt : idx < count
  · rw [if_pos hlt]
    exact ⟨hp, hb, hitems, hk, hlt⟩
  · rw [if_neg hlt]
    refine ⟨hp, hb, ?_⟩
    rw [hitems, shifted_end]
    have := hp.count
    omega

/-- **A removal keeps its shape** and ends with the picked dish in hand and gone from the tray. -/
theorem Removal.step_shape {b : ShareFoodBuffer} {live : List Slot} {r : Removal} (rand : Nat)
    (h : r.Shape b live) :
    (∃ r', (r.step rand b).2 = .inl r' ∧ r'.Shape (r.step rand b).1 live) ∨
    (∃ k item, (r.step rand b).2 = .inr (k, item) ∧ live[k]? = some item
      ∧ Stores (r.step rand b).1 (live.eraseIdx k)) := by
  cases r with
  | readItem count =>
      obtain ⟨hst, hcount, hpos⟩ := h
      have hlt : rand % count < live.length := hcount ▸ Nat.mod_lt rand hpos
      have hitem : live[rand % count]? = some (b.items (rand % count)) := by
        rw [hst.items, layout_of_lt hlt]
        exact List.getElem?_eq_getElem hlt
      -- what follows the picked position is still to be moved down
      refine Or.inl ⟨_, rfl,
        Removal.shiftTest_shape ⟨hcount, hitem⟩ ?_ ?_ (Nat.le_refl _) (by omega)⟩
      · exact hst.count.trans hcount.symm
      · rw [shifted_start]
        exact hst.items
  | shiftRead count k item idx =>
      obtain ⟨hp, hb, hitems, hk, hidx⟩ := h
      refine Or.inl ⟨_, rfl, hp, hb, hitems, hk, hidx, ?_⟩
      show b.items (idx + 1) = _
      rw [hitems, shifted_at (Nat.le_succ idx)]
  | shiftWrite count k item idx next =>
      obtain ⟨hp, hb, hitems, hk, hidx, rfl⟩ := h
      refine Or.inl ⟨_, rfl, Removal.shiftTest_shape hp hb ?_ (by omega) hidx⟩
      show Function.update b.items idx _ = _
      rw [hitems, shifted_step hk]
  | clear count k item =>
      obtain ⟨hp, hb, hitems⟩ := h
      refine Or.inl ⟨_, rfl, hp, hb, ?_⟩
      show Function.update b.items count _ = _
      rw [hitems, layout_clear]
      have := List.length_eraseIdx_le live k
      have := hp.count
      omega
  | writeCount count k item =>
      obtain ⟨hp, hb, hitems⟩ := h
      refine Or.inr ⟨k, item, rfl, hp.item, ⟨?_, hitems⟩⟩
      -- the array is that of the remaining slots; only the count is still the old one
      have hlt : k < live.length := (List.getElem?_eq_some_iff.mp hp.item).1
      show count - 1 = _
      rw [List.length_eraseIdx_of_lt hlt, hp.count]

/-! ## The four things a step can do to a tray -/

@[simp] theorem sem_post_same (mem : Trays) (t : ShmIdx) :
    sem_post mem t t = { mem t with sem := (mem t).sem + 1 } := by simp [sem_post]
@[simp] theorem store_same (mem : Trays) (t : ShmIdx) (b : ShareFoodBuffer) :
    store mem t b t = { mem t with buffer := b } := by simp [store]

theorem sem_post_other {t t' : ShmIdx} (mem : Trays) (h : t' ≠ t) : sem_post mem t t' = mem t' := by
  simp [sem_post, h]

theorem store_other {t t' : ShmIdx} (mem : Trays) (b : ShareFoodBuffer) (h : t' ≠ t) :
    store mem t b t' = mem t' := by
  simp [store, h]

/-- A successful `sem_wait` found the semaphore positive and took one from it. -/
theorem sem_wait_some {mem mem' : Trays} {t : ShmIdx} (h : sem_wait mem t = some mem') :
    0 < (mem t).sem ∧ mem' t = { mem t with sem := (mem t).sem - 1 }
      ∧ ∀ t', t' ≠ t → mem' t' = mem t' := by
  rw [sem_wait] at h
  by_cases hpos : 0 < (mem t).sem
  · rw [if_pos hpos] at h
    cases h
    exact ⟨hpos, by simp, fun t' ht => by simp [ht]⟩
  · rw [if_neg hpos] at h
    cases h

/-- What leaving tray `t` amounts to, for a process that entered when the tray stored `live`. -/
inductive Effect (t : ShmIdx) (n : Nat) (b : ShareFoodBuffer) (live : List Slot)
    (deeds : List Deed) : Prop where
  | nothing : cookedOn t deeds = [] → takenFrom t deeds = [] → Stores b live →
      Effect t n b live deeds
  | cook (d : Slot) : cookedOn t deeds = [d] → takenFrom t deeds = [] → Fresh t n d →
      live.length < MAX_ITEM → Stores b (live ++ [d]) → Effect t n b live deeds
  | take (k : Nat) (d : Slot) : cookedOn t deeds = [] → takenFrom t deeds = [d] →
      live[k]? = some d → Stores b (live.eraseIdx k) → Effect t n b live deeds

/-- What the step `m` of a process at `c` does to tray `t`, whose memory was `mem`. -/
inductive TrayMove (t : ShmIdx) (n : Nat) (c : Ctrl) (mem : ShareMemory) (m : Move Ctrl) :
    Prop where
  | untouched : ¬ c.inside t → ¬ m.ctrl.inside t → m.food_shm t = mem →
      cookedOn t m.deeds = [] → takenFrom t m.deeds = [] → TrayMove t n c mem m
  | enter : ¬ c.inside t → m.ctrl.inside t → 0 < mem.sem →
      m.food_shm t = { mem with sem := mem.sem - 1 } →
      cookedOn t m.deeds = [] → takenFrom t m.deeds = [] →
      (∀ live, Stores mem.buffer live → m.ctrl.Shape t n mem.buffer live) → TrayMove t n c mem m
  | work : c.inside t → m.ctrl.inside t → (m.food_shm t).sem = mem.sem →
      cookedOn t m.deeds = [] → takenFrom t m.deeds = [] →
      (∀ live, c.Shape t n mem.buffer live → m.ctrl.Shape t n (m.food_shm t).buffer live) →
      TrayMove t n c mem m
  | leave : c.inside t → ¬ m.ctrl.inside t → m.food_shm t = { mem with sem := mem.sem + 1 } →
      (∀ live, c.Shape t n mem.buffer live → Effect t n mem.buffer live m.deeds) →
      TrayMove t n c mem m

/-- Whatever `rand()` returns, the dish is on the menu. -/
theorem menu_getD (t : ShmIdx) (r : Nat) : (menu t).getD (r % 2) "" ∈ menu t := by
  rcases Nat.mod_two_eq_zero_or_one r with h | h <;> rw [h] <;> cases t <;>
    simp [menu, vegan_name, non_vegan_name]

/-- A step of a removal, at the tray that it is about: the routine is at `during` while it lasts
    and at `after` when it has ended. -/
theorem trayMove_removal {t : ShmIdx} {n : Nat} {mem : Trays} {r : Removal} {m : Move Ctrl}
    (rand : Nat) (during : Removal → Ctrl) (after : Nat → Slot → Ctrl)
    (hmem : m.food_shm = store mem t (r.step rand (mem t).buffer).1)
    (hctrl : m.ctrl = (r.step rand (mem t).buffer).2.elim during fun d => after d.1 d.2)
    (hdeeds : m.deeds = [])
    (hin : ∀ r', (during r').inside t) (hin' : ∀ k item, (after k item).inside t)
    (hduring : ∀ r' b live, (during r').Shape t n b live ↔ r'.Shape b live)
    (hafter : ∀ k item b live, (after k item).Shape t n b live ↔
      live[k]? = some item ∧ Stores b (live.eraseIdx k)) :
    TrayMove t n (during r) (mem t) m := by
  refine .work (hin r) ?_ (by simp [hmem]) (by rw [hdeeds]; rfl) (by rw [hdeeds]; rfl) ?_
  · rw [hctrl]
    cases (r.step rand (mem t).buffer).2 with
    | inl r' => exact hin r'
    | inr d => exact hin' d.1 d.2
  · intro live hsh
    have hbuf : (m.food_shm t).buffer = (r.step rand (mem t).buffer).1 := by simp [hmem]
    rw [hctrl, hbuf]
    rcases Removal.step_shape rand ((hduring r _ live).mp hsh) with
      ⟨r', hr', hsh'⟩ | ⟨k, item, hr', hsh'⟩
    · rw [hr']
      exact (hduring r' _ live).mpr hsh'
    · rw [hr']
      exact (hafter k item _ live).mpr hsh'

/-- A chef's step, at its own tray. -/
theorem chef_trayMove {t : ShmIdx} {e : Env} {mem : Trays} {c : ChefCtrl} {m : Move ChefCtrl}
    (h : chef t (menu t) e mem c = some m) :
    TrayMove t (e.serial t) (.chef t c) (mem t) (m.map (.chef t)) := by
  cases c with
  | loop =>
      cases h
      refine .untouched ?_ ?_ rfl rfl rfl
      · intro hin
        cases hin.2
      · cases e.running <;> exact fun hin => by cases hin.2
  | wait =>
      obtain ⟨mem', hw, rfl⟩ := Option.map_eq_some_iff.mp h
      obtain ⟨hpos, hmem, -⟩ := sem_wait_some hw
      -- the free tray is in order, and the chef has read nothing of it yet
      exact .enter (fun hin => by cases hin.2) ⟨rfl, rfl⟩ hpos hmem rfl rfl fun _ hst => hst
  | readCount =>
      by_cases hfull : MAX_ITEM ≤ (mem t).buffer.count
      · simp only [chef, if_pos hfull, Option.some.injEq] at h
        subst h
        refine .work ⟨rfl, rfl⟩ ⟨rfl, rfl⟩ rfl rfl rfl ?_
        intro live hst
        exact ⟨hst, hst.count, hfull⟩
      · simp only [chef, if_neg hfull, Option.some.injEq] at h
        subst h
        refine .work ⟨rfl, rfl⟩ ⟨rfl, rfl⟩ rfl rfl rfl ?_
        intro live hst
        exact ⟨hst, hst.count, Nat.lt_of_not_le hfull⟩
  | postFull count =>
      cases h
      refine .leave ⟨rfl, rfl⟩ (fun hin => by cases hin.2) (sem_post_same mem t) ?_
      intro live hsh
      exact .nothing rfl rfl hsh.1
  | cook count =>
      cases h
      refine .work ⟨rfl, rfl⟩ ⟨rfl, rfl⟩ rfl rfl rfl ?_
      rintro live ⟨hst, hc, hlt⟩
      exact ⟨hst, hc, hlt, menu_getD t (e.rand 1)⟩
  | writeItem count food =>
      cases h
      refine .work ⟨rfl, rfl⟩ ⟨rfl, rfl⟩ (by simp [Move.map]) rfl rfl ?_
      rintro live ⟨hst, rfl, hlt, hdish⟩
      refine ⟨rfl, hlt, ⟨rfl, hdish⟩, ?_, ?_⟩
      · simpa [Move.map] using hst.count
      · simp only [Move.map, store_same, ShareFoodBuffer.setItem_items, hst.items]
        exact layout_append live _
  | writeCount count slot =>
      cases h
      refine .work ⟨rfl, rfl⟩ ⟨rfl, rfl⟩ (by simp [Move.map]) rfl rfl ?_
      rintro live ⟨rfl, hlt, hfresh, hb, hitems⟩
      refine ⟨hlt, hfresh, ?_, ?_⟩
      · simp [Move.map]
      · simpa [Move.map] using hitems
  | post slot =>
      cases h
      refine .leave ⟨rfl, rfl⟩ (fun hin => by cases hin.2) (sem_post_same mem t) ?_
      rintro live ⟨hlt, hfresh, hst⟩
      exact .cook slot (by simp [Move.map, cookedOn]) rfl hfresh hlt hst
  | log slot =>
      cases h
      exact .untouched (fun hin => by cases hin.2) (fun hin => by cases hin.2) rfl rfl rfl
  | home => cases h

/-- A customer's step, at its own tray. -/
theorem customer_trayMove {t : ShmIdx} {e : Env} {mem : Trays} {c : CustomerCtrl}
    {m : Move CustomerCtrl} (h : customer t e mem c = some m) :
    TrayMove t (e.serial t) (.customer t c) (mem t) (m.map (.customer t)) := by
  cases c with
  | loop =>
      cases h
      refine .untouched ?_ ?_ rfl rfl rfl
      · intro hin
        cases hin.2
      · cases e.running <;> exact fun hin => by cases hin.2
  | wait =>
      obtain ⟨mem', hw, rfl⟩ := Option.map_eq_some_iff.mp h
      obtain ⟨hpos, hmem, -⟩ := sem_wait_some hw
      exact .enter (fun hin => by cases hin.2) ⟨rfl, rfl⟩ hpos hmem rfl rfl fun _ hst => hst
  | readCount =>
      by_cases hempty : (mem t).buffer.count = 0
      · simp only [customer, if_pos hempty, Option.some.injEq] at h
        subst h
        refine .work ⟨rfl, rfl⟩ ⟨rfl, rfl⟩ rfl rfl rfl ?_
        intro live hst
        exact ⟨hst, hst.count, hempty⟩
      · simp only [customer, if_neg hempty, Option.some.injEq] at h
        subst h
        refine .work ⟨rfl, rfl⟩ ⟨rfl, rfl⟩ rfl rfl rfl ?_
        intro live hst
        exact ⟨hst, hst.count, Nat.pos_of_ne_zero hempty⟩
  | postEmpty count =>
      cases h
      refine .leave ⟨rfl, rfl⟩ (fun hin => by cases hin.2) (sem_post_same mem t) ?_
      intro live hsh
      exact .nothing rfl rfl hsh.1
  | pickSleep count =>
      cases h
      exact .work ⟨rfl, rfl⟩ ⟨rfl, rfl⟩ rfl rfl rfl fun live hsh => hsh
  | remove r =>
      cases h
      refine trayMove_removal (e.rand 0) (fun r => .customer t (.remove r))
        (fun k item => .customer t (.post k item)) rfl ?_ rfl (fun _ => ⟨rfl, rfl⟩)
        (fun _ _ => ⟨rfl, rfl⟩) (fun _ _ _ => Iff.rfl) (fun _ _ _ _ => Iff.rfl)
      cases (r.step (e.rand 0) (mem t).buffer).2 <;> simp [Move.map]
  | post k item =>
      cases h
      refine .leave ⟨rfl, rfl⟩ (fun hin => by cases hin.2) (sem_post_same mem t) ?_
      rintro live ⟨hitem, hst⟩
      exact .take k item rfl (by simp [Move.map, takenFrom]) hitem hst
  | log item =>
      cases h
      exact .untouched (fun hin => by cases hin.2) (fun hin => by cases hin.2) rfl rfl rfl
  | home => cases h

/-- A step of the hybrid customer, at the vegan tray. -/
theorem hybrid_trayMove_vegan {e : Env} {mem : Trays} {c : HybridCtrl} {m : Move HybridCtrl}
    (h : hybridCustomer e mem c = some m) :
    TrayMove .vegan (e.serial .vegan) (.hybrid c) (mem .vegan) (m.map .hybrid) := by
  have hne : ShmIdx.vegan ≠ ShmIdx.nonVegan := by decide
  cases c with
  | loop =>
      cases h
      refine .untouched (fun hin => by cases hin) ?_ rfl rfl rfl
      cases e.running <;> exact fun hin => by cases hin
  | waitVegan =>
      obtain ⟨mem', hw, rfl⟩ := Option.map_eq_some_iff.mp h
      obtain ⟨hpos, hmem, -⟩ := sem_wait_some hw
      exact .enter (fun hin => by cases hin) rfl hpos hmem rfl rfl fun _ hst => hst
  | waitNonVegan =>
      obtain ⟨mem', hw, rfl⟩ := Option.map_eq_some_iff.mp h
      obtain ⟨-, -, hother⟩ := sem_wait_some hw
      have hmem : mem' .vegan = mem .vegan := hother _ hne
      refine .work rfl rfl (congrArg ShareMemory.sem hmem) rfl rfl ?_
      intro live hst
      exact (congrArg ShareMemory.buffer hmem).symm ▸ hst
  | readVegan =>
      cases h
      exact .work rfl rfl rfl rfl rfl fun live hst => ⟨hst, hst.count⟩
  | readNonVegan v =>
      by_cases hempty : v = 0 ∨ (mem .nonVegan).buffer.count = 0
      · simp only [hybridCustomer, if_pos hempty, Option.some.injEq] at h
        subst h
        exact .work rfl rfl rfl rfl rfl fun live hsh => ⟨hsh.1, hsh.2, hempty⟩
      · simp only [hybridCustomer, if_neg hempty, Option.some.injEq] at h
        subst h
        refine .work rfl rfl rfl rfl rfl fun live hsh => ⟨hsh.1, hsh.2, ?_⟩
        exact Nat.pos_of_ne_zero fun h0 => hempty (Or.inl h0)
  | postEmptyVegan v n =>
      cases h
      exact .leave rfl (fun hin => by cases hin) (sem_post_same mem .vegan)
        fun live hsh => .nothing rfl rfl hsh.1
  | postEmptyNonVegan =>
      cases h
      exact .untouched (fun hin => by cases hin) (fun hin => by cases hin)
        (sem_post_other mem hne) rfl rfl
  | pickSleep v n =>
      cases h
      exact .work rfl rfl rfl rfl rfl fun live hsh => hsh
  | removeVegan n r =>
      cases h
      refine trayMove_removal (e.rand 0) (fun r => .hybrid (.removeVegan n r))
        (fun k item => .hybrid (.postVegan n k item)) rfl ?_ rfl (fun _ => rfl) (fun _ _ => rfl)
        (fun _ _ _ => Iff.rfl) (fun _ _ _ _ => Iff.rfl)
      cases (r.step (e.rand 0) (mem .vegan).buffer).2 <;> simp [Move.map]
  | postVegan n k item =>
      cases h
      refine .leave rfl (fun hin => by cases hin) (sem_post_same mem .vegan) ?_
      rintro live ⟨hitem, hst⟩
      exact .take k item rfl (by simp [Move.map, takenFrom]) hitem hst
  | removeNonVegan v r =>
      cases h
      refine .untouched (fun hin => by cases hin) ?_
        (store_other mem (r.step (e.rand 0) (mem .nonVegan).buffer).1 hne) rfl rfl
      cases (r.step (e.rand 0) (mem .nonVegan).buffer).2 <;>
        simp [Move.map, Ctrl.inside, HybridCtrl.inside]
  | postNonVegan v k item =>
      cases h
      exact .untouched (fun hin => by cases hin) (fun hin => by cases hin)
        (sem_post_other mem hne) rfl rfl
  | log v n =>
      cases h
      exact .untouched (fun hin => by cases hin) (fun hin => by cases hin) rfl rfl rfl
  | home => cases h

/-- A step of the hybrid customer, at the non-vegan tray. -/
theorem hybrid_trayMove_nonVegan {e : Env} {mem : Trays} {c : HybridCtrl} {m : Move HybridCtrl}
    (h : hybridCustomer e mem c = some m) :
    TrayMove .nonVegan (e.serial .nonVegan) (.hybrid c) (mem .nonVegan) (m.map .hybrid) := by
  have hne : ShmIdx.nonVegan ≠ ShmIdx.vegan := by decide
  cases c with
  | loop =>
      cases h
      refine .untouched (fun hin => by cases hin) ?_ rfl rfl rfl
      cases e.running <;> exact fun hin => by cases hin
  | waitVegan =>
      obtain ⟨mem', hw, rfl⟩ := Option.map_eq_some_iff.mp h
      obtain ⟨-, -, hother⟩ := sem_wait_some hw
      exact .untouched (fun hin => by cases hin) (fun hin => by cases hin) (hother _ hne) rfl rfl
  | waitNonVegan =>
      obtain ⟨mem', hw, rfl⟩ := Option.map_eq_some_iff.mp h
      obtain ⟨hpos, hmem, -⟩ := sem_wait_some hw
      exact .enter (fun hin => by cases hin) rfl hpos hmem rfl rfl fun _ hst => hst
  | readVegan =>
      cases h
      exact .work rfl rfl rfl rfl rfl fun live hst => hst
  | readNonVegan v =>
      by_cases hempty : v = 0 ∨ (mem .nonVegan).buffer.count = 0
      · simp only [hybridCustomer, if_pos hempty, Option.some.injEq] at h
        subst h
        exact .work rfl rfl rfl rfl rfl fun live hst => ⟨hst, hst.count, hempty⟩
      · simp only [hybridCustomer, if_neg hempty, Option.some.injEq] at h
        subst h
        refine .work rfl rfl rfl rfl rfl fun live hst => ⟨hst, hst.count, ?_⟩
        exact Nat.pos_of_ne_zero fun h0 => hempty (Or.inr h0)
  | postEmptyVegan v n =>
      cases h
      have hmem : sem_post mem .vegan .nonVegan = mem .nonVegan := sem_post_other mem hne
      refine .work rfl rfl (congrArg ShareMemory.sem hmem) rfl rfl ?_
      intro live hsh
      exact (congrArg ShareMemory.buffer hmem).symm ▸ hsh.1
  | postEmptyNonVegan =>
      cases h
      exact .leave rfl (fun hin => by cases hin) (sem_post_same mem .nonVegan)
        fun live hsh => .nothing rfl rfl hsh
  | pickSleep v n =>
      cases h
      exact .work rfl rfl rfl rfl rfl fun live hsh => hsh
  | removeVegan n r =>
      cases h
      -- a removal from the vegan tray leaves the other tray alone
      have hmem : store mem .vegan (r.step (e.rand 0) (mem .vegan).buffer).1 .nonVegan
          = mem .nonVegan := store_other mem _ hne
      refine .work rfl ?_ (congrArg ShareMemory.sem hmem) rfl rfl ?_
      · cases (r.step (e.rand 0) (mem .vegan).buffer).2 <;>
          simp [Move.map, Ctrl.inside, HybridCtrl.inside]
      · intro live hsh
        have hbuf := congrArg ShareMemory.buffer hmem
        cases hr : (r.step (e.rand 0) (mem .vegan).buffer).2 <;>
          simpa [Move.map, hr, hbuf, Ctrl.Shape, HybridCtrl.Shape] using hsh
  | postVegan n k item =>
      cases h
      have hmem : sem_post mem .vegan .nonVegan = mem .nonVegan := sem_post_other mem hne
      refine .work rfl rfl (congrArg ShareMemory.sem hmem) rfl rfl ?_
      intro live hsh
      exact (congrArg ShareMemory.buffer hmem).symm ▸ hsh
  | removeNonVegan v r =>
      cases h
      refine trayMove_removal (e.rand 0) (fun r => .hybrid (.removeNonVegan v r))
        (fun k item => .hybrid (.postNonVegan v k item)) rfl ?_ rfl (fun _ => rfl) (fun _ _ => rfl)
        (fun _ _ _ => Iff.rfl) (fun _ _ _ _ => Iff.rfl)
      cases (r.step (e.rand 0) (mem .nonVegan).buffer).2 <;> simp [Move.map]
  | postNonVegan v k item =>
      cases h
      refine .leave rfl (fun hin => by cases hin) (sem_post_same mem .nonVegan) ?_
      rintro live ⟨hitem, hst⟩
      exact .take k item rfl (by simp [Move.map, takenFrom]) hitem hst
  | log v n =>
      cases h
      exact .untouched (fun hin => by cases hin) (fun hin => by cases hin) rfl rfl rfl
  | home => cases h

/-- A chef's step leaves the other tray alone. -/
theorem chef_other {t t' : ShmIdx} {names : List String} {e : Env} {mem : Trays} {c : ChefCtrl}
    {m : Move ChefCtrl} (h : chef t names e mem c = some m) (ht : t' ≠ t) :
    m.food_shm t' = mem t' ∧ cookedOn t' m.deeds = [] ∧ takenFrom t' m.deeds = [] := by
  cases c with
  | wait =>
      obtain ⟨mem', hw, rfl⟩ := Option.map_eq_some_iff.mp h
      exact ⟨(sem_wait_some hw).2.2 t' ht, rfl, rfl⟩
  | post slot =>
      cases h
      exact ⟨sem_post_other mem ht, by simp [cookedOn, ht.symm], rfl⟩
  | postFull count => cases h; exact ⟨sem_post_other mem ht, rfl, rfl⟩
  | writeItem count food => cases h; exact ⟨store_other mem _ ht, rfl, rfl⟩
  | writeCount count slot => cases h; exact ⟨store_other mem _ ht, rfl, rfl⟩
  | home => cases h
  | loop | readCount | cook _ | log _ => cases h; exact ⟨rfl, rfl, rfl⟩

/-- A customer's step leaves the other tray alone. -/
theorem customer_other {t t' : ShmIdx} {e : Env} {mem : Trays} {c : CustomerCtrl}
    {m : Move CustomerCtrl} (h : customer t e mem c = some m) (ht : t' ≠ t) :
    m.food_shm t' = mem t' ∧ cookedOn t' m.deeds = [] ∧ takenFrom t' m.deeds = [] := by
  cases c with
  | wait =>
      obtain ⟨mem', hw, rfl⟩ := Option.map_eq_some_iff.mp h
      exact ⟨(sem_wait_some hw).2.2 t' ht, rfl, rfl⟩
  | post k item =>
      cases h
      exact ⟨sem_post_other mem ht, rfl, by simp [takenFrom, ht.symm]⟩
  | postEmpty count => cases h; exact ⟨sem_post_other mem ht, rfl, rfl⟩
  | remove r => cases h; exact ⟨store_other mem _ ht, rfl, rfl⟩
  | home => cases h
  | loop | readCount | pickSleep _ | log _ => cases h; exact ⟨rfl, rfl, rfl⟩

/-- The routine of a chef, by its tray. -/
theorem routine_chef (e : Env) (mem : Trays) (t : ShmIdx) (c : ChefCtrl) :
    routine e mem (.chef t c) = (chef t (menu t) e mem c).map (Move.map (.chef t)) := by
  cases t <;> rfl

/-- The routine of a customer of one tray, by its tray. -/
theorem routine_customer (e : Env) (mem : Trays) (t : ShmIdx) (c : CustomerCtrl) :
    routine e mem (.customer t c) = (customer t e mem c).map (Move.map (.customer t)) := by
  cases t <;> rfl

/-- **What one step of any routine does to any tray.** -/
theorem routine_trayMove {e : Env} {mem : Trays} {c : Ctrl} {m : Move Ctrl}
    (h : routine e mem c = some m) (t : ShmIdx) : TrayMove t (e.serial t) c (mem t) m := by
  cases c with
  | chef t₀ c =>
      rw [routine_chef] at h
      obtain ⟨m₀, hm₀, rfl⟩ := Option.map_eq_some_iff.mp h
      by_cases ht : t = t₀
      · subst ht
        exact chef_trayMove hm₀
      · obtain ⟨hmem, hcook, htake⟩ := chef_other hm₀ ht
        exact .untouched (fun hin => ht hin.1.symm) (fun hin => ht hin.1.symm) hmem hcook htake
  | customer t₀ c =>
      rw [routine_customer] at h
      obtain ⟨m₀, hm₀, rfl⟩ := Option.map_eq_some_iff.mp h
      by_cases ht : t = t₀
      · subst ht
        exact customer_trayMove hm₀
      · obtain ⟨hmem, hcook, htake⟩ := customer_other hm₀ ht
        exact .untouched (fun hin => ht hin.1.symm) (fun hin => ht hin.1.symm) hmem hcook htake
  | hybrid c =>
      obtain ⟨m₀, hm₀, rfl⟩ := Option.map_eq_some_iff.mp h
      cases t with
      | vegan => exact hybrid_trayMove_vegan hm₀
      | nonVegan => exact hybrid_trayMove_nonVegan hm₀

/-! ## The invariant -/

/-- The books of tray `t` after the deeds `ds` are `L`: dishes are numbered in cooking order, come
    from the tray's menu, and at most `MAX_ITEM` of them remain. -/
structure Accounts (t : ShmIdx) (ds : List Deed) (L : Ledger Slot) : Prop where
  made   : L.made = cookedOn t ds
  gone   : L.gone = takenFrom t ds
  serial : L.made.map Slot.cooking = (List.range L.made.length).map some
  dish   : ∀ d ∈ L.made, d.food.dish ∈ menu t
  room   : L.remaining.length ≤ MAX_ITEM

/-- The books of tray `t` are `L`, and the tray's memory agrees with them. -/
structure TrayBooks (t : ShmIdx) (s : Kitchen ι) (L : Ledger Slot) : Prop where
  accounts : Accounts t s.deeds L
  lock     : Owned (fun p => (s.ctrl p).inside t) (s.food_shm t).sem
  busy     : ∀ p, (s.ctrl p).inside t →
    (s.ctrl p).Shape t L.made.length (s.food_shm t).buffer L.remaining
  quiet    : (∀ p, ¬ (s.ctrl p).inside t) → Stores (s.food_shm t).buffer L.remaining

/-- **The invariant of a tray.** -/
def TrayInv (t : ShmIdx) (s : Kitchen ι) : Prop := ∃ L : Ledger Slot, TrayBooks t s L

theorem cookedOn_append (t : ShmIdx) (ds es : List Deed) :
    cookedOn t (ds ++ es) = cookedOn t ds ++ cookedOn t es := List.filterMap_append

theorem takenFrom_append (t : ShmIdx) (ds es : List Deed) :
    takenFrom t (ds ++ es) = takenFrom t ds ++ takenFrom t es := List.filterMap_append

namespace Accounts

variable {t : ShmIdx} {ds es : List Deed} {L : Ledger Slot}

/-- Deeds that concern the other tray only. -/
theorem idle (hA : Accounts t ds L) (hcook : cookedOn t es = []) (htake : takenFrom t es = []) :
    Accounts t (ds ++ es) L := by
  refine ⟨?_, ?_, hA.serial, hA.dish, hA.room⟩
  · rw [cookedOn_append, hcook, List.append_nil, hA.made]
  · rw [takenFrom_append, htake, List.append_nil, hA.gone]

/-- A dish with the next serial number is not in the books yet. -/
theorem fresh_notMem (hA : Accounts t ds L) {d : Slot} (hd : d.cooking = some L.made.length) :
    d ∉ L.made := by
  intro hmem
  have hc : d.cooking ∈ L.made.map Slot.cooking := List.mem_map_of_mem hmem
  rw [hA.serial, hd] at hc
  obtain ⟨i, hi, heq⟩ := List.mem_map.mp hc
  cases heq
  exact absurd (List.mem_range.mp hi) (Nat.lt_irrefl _)

/-- One more dish on the tray. -/
theorem cook (hA : Accounts t ds L) {d : Slot} (hfresh : Fresh t L.made.length d)
    (hroom : L.remaining.length < MAX_ITEM) (hcook : cookedOn t es = [d])
    (htake : takenFrom t es = []) :
    Accounts t (ds ++ es) (L.make d (hA.fresh_notMem hfresh.cooking)) := by
  refine ⟨?_, ?_, ?_, ?_, ?_⟩
  · rw [cookedOn_append, hcook, ← hA.made]; rfl
  · rw [takenFrom_append, htake, List.append_nil, ← hA.gone]; rfl
  · show (L.made ++ [d]).map Slot.cooking = (List.range (L.made ++ [d]).length).map some
    rw [List.map_append, hA.serial, List.length_append, List.length_singleton, List.range_succ,
      List.map_append, List.map_singleton, hfresh.cooking, List.map_singleton]
  · intro x hx
    rcases List.mem_append.mp hx with hx | hx
    · exact hA.dish x hx
    · rw [List.mem_singleton.mp hx]
      exact hfresh.dish
  · rw [Ledger.remaining_make, List.length_append, List.length_singleton]
    exact hroom

/-- One dish less on the tray. -/
theorem take (hA : Accounts t ds L) {k : Nat} {d : Slot} (hk : L.remaining[k]? = some d)
    (hcook : cookedOn t es = []) (htake : takenFrom t es = [d]) :
    Accounts t (ds ++ es) (L.take d (List.mem_of_getElem? hk)) := by
  refine ⟨?_, ?_, hA.serial, hA.dish, ?_⟩
  · rw [cookedOn_append, hcook, List.append_nil, ← hA.made]; rfl
  · rw [takenFrom_append, htake, ← hA.gone]; rfl
  · rw [L.remaining_take_at hk]
    exact Nat.le_trans (List.length_eraseIdx_le _ _) hA.room

end Accounts

variable [DecidableEq ι]

@[simp] theorem commit_deeds (s : Kitchen ι) (p : ι) (m : Move Ctrl) :
    (s.commit p m).deeds = s.deeds ++ m.deeds := by
  simp [Kitchen.commit, Kitchen.deeds, Function.comp_def]

@[simp] theorem commit_ctrl_self (s : Kitchen ι) (p : ι) (m : Move Ctrl) :
    (s.commit p m).ctrl p = m.ctrl := Function.update_self ..

theorem commit_ctrl_other {p q : ι} (s : Kitchen ι) (m : Move Ctrl) (h : q ≠ p) :
    (s.commit p m).ctrl q = s.ctrl q := Function.update_of_ne h ..

/-- Who is inside after a step of `p`: the others as before, `p` by its new control point. -/
theorem inside_commit {s : Kitchen ι} {p q : ι} {m : Move Ctrl} {t : ShmIdx} :
    ((s.commit p m).ctrl q).inside t ↔
      (q = p ∧ m.ctrl.inside t) ∨ (q ≠ p ∧ (s.ctrl q).inside t) := by
  by_cases h : q = p
  · subst h
    simp
  · simp [commit_ctrl_other s m h, h]

/-- A step that neither enters nor leaves keeps the set of processes inside. -/
theorem inside_commit_keep {s : Kitchen ι} {p : ι} {m : Move Ctrl} {t : ShmIdx}
    (h : m.ctrl.inside t ↔ (s.ctrl p).inside t) (q : ι) :
    ((s.commit p m).ctrl q).inside t ↔ (s.ctrl q).inside t := by
  rw [inside_commit]
  by_cases hq : q = p
  · subst hq
    simp [h]
  · simp [hq]

namespace TrayBooks

variable {t : ShmIdx} {s : Kitchen ι} {L : Ledger Slot} {p : ι} {m : Move Ctrl}

/-- The step does not touch the tray. -/
theorem untouched (hB : TrayBooks t s L) (hc : ¬ (s.ctrl p).inside t) (hc' : ¬ m.ctrl.inside t)
    (hmem : m.food_shm t = s.food_shm t) (hcook : cookedOn t m.deeds = [])
    (htake : takenFrom t m.deeds = []) : TrayBooks t (s.commit p m) L := by
  have hin := inside_commit_keep (s := s) (iff_of_false hc' hc)
  have hm : (s.commit p m).food_shm t = s.food_shm t := hmem
  refine ⟨commit_deeds s p m ▸ hB.accounts.idle hcook htake, ?_, ?_, ?_⟩
  · rw [hm]
    exact hB.lock.keep hin
  · intro q hq
    have hqp : q ≠ p := fun h => hc' (by rw [h, commit_ctrl_self] at hq; exact hq)
    rw [commit_ctrl_other s m hqp, hm]
    exact hB.busy q ((hin q).mp hq)
  · intro hno
    rw [hm]
    exact hB.quiet fun q hq => hno q ((hin q).mpr hq)

/-- The process takes the tray's semaphore. -/
theorem enter (hB : TrayBooks t s L) (hc' : m.ctrl.inside t) (hsem : 0 < (s.food_shm t).sem)
    (hmem : m.food_shm t = { s.food_shm t with sem := (s.food_shm t).sem - 1 })
    (hcook : cookedOn t m.deeds = []) (htake : takenFrom t m.deeds = [])
    (hshape : ∀ live, Stores (s.food_shm t).buffer live →
      m.ctrl.Shape t L.made.length (s.food_shm t).buffer live) :
    TrayBooks t (s.commit p m) L := by
  -- nobody is inside, so the tray is in order
  have hno := hB.lock.outside_of_pos hsem
  have hm : (s.commit p m).food_shm t
      = { s.food_shm t with sem := (s.food_shm t).sem - 1 } := hmem
  refine ⟨commit_deeds s p m ▸ hB.accounts.idle hcook htake, ?_, ?_, ?_⟩
  · rw [hm]
    refine hB.lock.acquire (p := p) hsem ?_
    intro q
    rw [inside_commit]
    by_cases hq : q = p
    · subst hq; simp [hc']
    · simp [hq]
  · intro q hq
    rcases inside_commit.mp hq with ⟨rfl, -⟩ | ⟨-, hq'⟩
    · rw [commit_ctrl_self, hm]
      exact hshape _ (hB.quiet hno)
    · exact absurd hq' (hno q)
  · intro hno'
    exact absurd (inside_commit.mpr (Or.inl ⟨rfl, hc'⟩)) (hno' p)

/-- The process works inside the tray's critical section. -/
theorem work (hB : TrayBooks t s L) (hc : (s.ctrl p).inside t) (hc' : m.ctrl.inside t)
    (hsem : (m.food_shm t).sem = (s.food_shm t).sem)
    (hcook : cookedOn t m.deeds = []) (htake : takenFrom t m.deeds = [])
    (hshape : ∀ live, (s.ctrl p).Shape t L.made.length (s.food_shm t).buffer live →
      m.ctrl.Shape t L.made.length (m.food_shm t).buffer live) :
    TrayBooks t (s.commit p m) L := by
  have hin := inside_commit_keep (s := s) (iff_of_true hc' hc)
  refine ⟨commit_deeds s p m ▸ hB.accounts.idle hcook htake, ?_, ?_, ?_⟩
  · have hm : ((s.commit p m).food_shm t).sem = (s.food_shm t).sem := hsem
    rw [hm]
    exact hB.lock.keep hin
  · intro q hq
    have hqp : q = p := hB.lock.unique hc ((hin q).mp hq)
    subst hqp
    rw [commit_ctrl_self]
    exact hshape _ (hB.busy q hc)
  · intro hno
    exact absurd ((hin p).mpr hc) (hno p)

/-- The process posts the tray's semaphore; the books follow what it has done. -/
theorem leave (hB : TrayBooks t s L) (hc : (s.ctrl p).inside t) (hc' : ¬ m.ctrl.inside t)
    (hmem : m.food_shm t = { s.food_shm t with sem := (s.food_shm t).sem + 1 })
    (heffect : Effect t L.made.length (s.food_shm t).buffer L.remaining m.deeds) :
    ∃ L', TrayBooks t (s.commit p m) L' := by
  have hno : ∀ q, ¬ ((s.commit p m).ctrl q).inside t := by
    intro q hq
    rcases inside_commit.mp hq with ⟨-, hin⟩ | ⟨hne, hin⟩
    · exact hc' hin
    · exact hne (hB.lock.unique hc hin)
  have hm : (s.commit p m).food_shm t
      = { s.food_shm t with sem := (s.food_shm t).sem + 1 } := hmem
  have hlock : Owned (fun q => ((s.commit p m).ctrl q).inside t)
      ((s.commit p m).food_shm t).sem := by
    rw [hm]
    exact hB.lock.release hc fun q => iff_of_false (hno q) fun h => h.1 (hB.lock.unique hc h.2)
  -- the new books, by what the process has done inside
  suffices h : ∃ L', Accounts t (s.deeds ++ m.deeds) L'
      ∧ Stores (s.food_shm t).buffer L'.remaining by
    obtain ⟨L', hA', hst'⟩ := h
    refine ⟨L', commit_deeds s p m ▸ hA', hlock, fun q hq => absurd hq (hno q), ?_⟩
    intro _
    rw [hm]
    exact hst'
  cases heffect with
  | nothing hcook htake hst => exact ⟨L, hB.accounts.idle hcook htake, hst⟩
  | cook d hcook htake hfresh hroom hst =>
      refine ⟨_, hB.accounts.cook hfresh hroom hcook htake, ?_⟩
      rw [Ledger.remaining_make]
      exact hst
  | take k d hcook htake hk hst =>
      refine ⟨_, hB.accounts.take hk hcook htake, ?_⟩
      rw [L.remaining_take_at hk]
      exact hst

end TrayBooks

/-- **One step of any process keeps the invariant of every tray.** -/
theorem TrayInv.step {rand : ι → Nat → Nat} {s s' : Kitchen ι} {a : Act ι} {t : ShmIdx}
    (hinv : TrayInv t s) (h : step rand s a = some s') : TrayInv t s' := by
  obtain ⟨L, hB⟩ := hinv
  obtain ⟨m, hm, rfl⟩ := Option.map_eq_some_iff.mp h
  have hserial : (s.env rand a).serial t = L.made.length :=
    congrArg List.length hB.accounts.made.symm
  have hmove := routine_trayMove hm t
  rw [hserial] at hmove
  cases hmove with
  | untouched hc hc' hmem hcook htake => exact ⟨L, hB.untouched hc hc' hmem hcook htake⟩
  | enter _ hc' hsem hmem hcook htake hshape =>
      exact ⟨L, hB.enter hc' hsem hmem hcook htake hshape⟩
  | work hc hc' hsem hcook htake hshape => exact ⟨L, hB.work hc hc' hsem hcook htake hshape⟩
  | leave hc hc' hmem heffect => exact hB.leave hc hc' hmem (heffect _ (hB.busy a.pid hc))

omit [DecidableEq ι] in
/-- Freshly created trays satisfy the invariant. -/
theorem TrayInv.opening (role : ι → Role) (t : ShmIdx) : TrayInv t (opening role) := by
  have hno : ∀ p, ¬ ((SemaphoreKitchen.opening role).ctrl p).inside t := by
    intro p
    show ¬ (role p).start.inside t
    cases role p <;> simp [Role.start, Ctrl.inside, ChefCtrl.inside, CustomerCtrl.inside,
      HybridCtrl.inside]
  refine ⟨Ledger.empty, ⟨rfl, rfl, rfl, fun d hd => (by cases hd), by decide⟩,
    .free rfl hno, fun p hp => absurd hp (hno p), fun _ => ⟨rfl, rfl⟩⟩

/-- **The invariant holds in every reachable state, at both trays.** -/
theorem trayInv_reach {role : ι → Role} {rand : ι → Nat → Nat} {s : Kitchen ι}
    (h : Reachable (step rand) (opening role) s) (t : ShmIdx) : TrayInv t s :=
  h.invariant (TrayInv.opening role t) fun _ _ _ hinv _ hs => hinv.step hs

end SemaphoreKitchen
