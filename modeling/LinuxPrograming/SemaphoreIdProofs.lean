import LinuxPrograming.SemaphoreSerialProofs

/-!
# The ids of the dishes on a tray

A chef gives a dish the number of dishes that are on its tray as its id, and customers take dishes
from anywhere.  A dish that moves down keeps its id, so the next dish may get the same.

* **`Ctrl.Shape.visible`** — what the array holds below `count`, also in the middle of a removal.
* **`Identified.step`** — ids stay different as long as each new dish gets one that is not in use.
* **`ids_distinct_iff`** — this is the exact condition.
-/

namespace SemaphoreKitchen

open Transition BinaryLock SlotArray

/-! ## Dishes and ids -/

/-- Different dishes among `items[0 … count)` carry different ids.  A dish is known by its cooking
    event: in the middle of a removal the array holds one dish twice, or a cleared slot. -/
def DistinctIds (b : ShareFoodBuffer) : Prop :=
  ∀ i j m n, i < j → j < b.count → (b.items i).cooking = some m → (b.items j).cooking = some n →
    m ≠ n → (b.items i).food.id ≠ (b.items j).food.id

/-- Different dishes of a list carry different ids. -/
def DistinctDishes (l : List Slot) : Prop :=
  ∀ x ∈ l, ∀ y ∈ l, x.cooking ≠ y.cooking → x.food.id ≠ y.food.id

theorem DistinctDishes.subset {l l' : List Slot} (h : DistinctDishes l) (hsub : l' ⊆ l) :
    DistinctDishes l' :=
  fun x hx y hy => h x (hsub hx) y (hsub hy)

/-- A dish with a new id. -/
theorem DistinctDishes.concat {l : List Slot} {d : Slot} (h : DistinctDishes l)
    (hd : ∀ x ∈ l, x.food.id ≠ d.food.id) : DistinctDishes (l ++ [d]) := by
  intro x hx y hy hne
  rcases List.mem_append.mp hx with hx | hx
  · rcases List.mem_append.mp hy with hy | hy
    · exact h x hx y hy hne
    · rw [List.mem_singleton.mp hy]
      exact hd x hx
  · rcases List.mem_append.mp hy with hy | hy
    · rw [List.mem_singleton.mp hx]
      exact (hd y hy).symm
    · rw [List.mem_singleton.mp hx, List.mem_singleton.mp hy] at hne
      exact absurd rfl hne

/-- The dish that a chef has put on tray `t` and not reported yet. -/
def Ctrl.entered (t : ShmIdx) : Ctrl → List Slot
  | .chef t' (.post slot) => if t' = t then [slot] else []
  | _ => []

/-- The id of a dish that a chef is about to put on its tray. -/
def Ctrl.Counted : Ctrl → Prop
  | .chef _ (.writeItem count food)  => food.id = count
  | .chef _ (.writeCount count slot) => slot.food.id = count
  | _ => True

/-! ## What a step does about ids -/

/-- The dish that a step reports as cooked. -/
theorem routine_cooked {e : Env} {mem : Trays} {c : Ctrl} {m : Move Ctrl}
    (h : routine e mem c = some m) (t : ShmIdx) : cookedOn t m.deeds = c.entered t := by
  cases c with
  | chef t₀ c =>
      rw [routine_chef] at h
      obtain ⟨m₀, hm₀, rfl⟩ := Option.map_eq_some_iff.mp h
      cases c with
      | wait => obtain ⟨mem', -, rfl⟩ := Option.map_eq_some_iff.mp hm₀; rfl
      | post slot =>
          cases hm₀
          by_cases ht : t₀ = t <;> simp [Move.map, cookedOn, Ctrl.entered, ht]
      | home => cases hm₀
      | _ => cases hm₀; rfl
  | customer t₀ c =>
      rw [routine_customer] at h
      obtain ⟨m₀, hm₀, rfl⟩ := Option.map_eq_some_iff.mp h
      cases c with
      | wait => obtain ⟨mem', -, rfl⟩ := Option.map_eq_some_iff.mp hm₀; rfl
      | home => cases hm₀
      | _ => cases hm₀; rfl
  | hybrid c =>
      obtain ⟨m₀, hm₀, rfl⟩ := Option.map_eq_some_iff.mp h
      cases c with
      | waitVegan | waitNonVegan =>
          obtain ⟨mem', -, rfl⟩ := Option.map_eq_some_iff.mp hm₀
          rfl
      | home => cases hm₀
      | _ => cases hm₀; rfl

/-- A step puts a dish on a tray only by storing the new count. -/
theorem routine_entered {e : Env} {mem : Trays} {c : Ctrl} {m : Move Ctrl}
    (h : routine e mem c = some m) (t : ShmIdx) :
    m.ctrl.entered t = [] ∨
      ∃ count slot, c = .chef t (.writeCount count slot) ∧ m.ctrl = .chef t (.post slot) := by
  cases c with
  | chef t₀ c =>
      rw [routine_chef] at h
      obtain ⟨m₀, hm₀, rfl⟩ := Option.map_eq_some_iff.mp h
      cases c with
      | loop => cases hm₀; cases e.running <;> exact Or.inl rfl
      | wait => obtain ⟨mem', -, rfl⟩ := Option.map_eq_some_iff.mp hm₀; exact Or.inl rfl
      | readCount =>
          cases hm₀
          by_cases hfull : MAX_ITEM ≤ (mem t₀).buffer.count <;>
            exact Or.inl (by simp [Move.map, hfull, Ctrl.entered])
      | writeCount count slot =>
          cases hm₀
          by_cases ht : t₀ = t
          · subst ht
            exact Or.inr ⟨count, slot, rfl, rfl⟩
          · exact Or.inl (if_neg ht)
      | home => cases hm₀
      | _ => cases hm₀; exact Or.inl rfl
  | customer t₀ c =>
      rw [routine_customer] at h
      obtain ⟨m₀, -, rfl⟩ := Option.map_eq_some_iff.mp h
      exact Or.inl rfl
  | hybrid c =>
      obtain ⟨m₀, -, rfl⟩ := Option.map_eq_some_iff.mp h
      exact Or.inl rfl

/-- The id is the count that the chef has read. -/
theorem routine_counted {e : Env} {mem : Trays} {c : Ctrl} {m : Move Ctrl}
    (h : routine e mem c = some m) (hc : c.Counted) : m.ctrl.Counted := by
  cases c with
  | chef t₀ c =>
      rw [routine_chef] at h
      obtain ⟨m₀, hm₀, rfl⟩ := Option.map_eq_some_iff.mp h
      cases c with
      | loop => cases hm₀; cases e.running <;> exact trivial
      | wait => obtain ⟨mem', -, rfl⟩ := Option.map_eq_some_iff.mp hm₀; trivial
      | readCount =>
          cases hm₀
          by_cases hfull : MAX_ITEM ≤ (mem t₀).buffer.count <;>
            simp [Move.map, hfull, Ctrl.Counted]
      | cook count => cases hm₀; rfl
      | writeItem count food => cases hm₀; exact hc
      | home => cases hm₀
      | _ => cases hm₀; trivial
  | customer t₀ c =>
      rw [routine_customer] at h
      obtain ⟨m₀, -, rfl⟩ := Option.map_eq_some_iff.mp h
      trivial
  | hybrid c =>
      obtain ⟨m₀, -, rfl⟩ := Option.map_eq_some_iff.mp h
      trivial

/-! ## What the array holds -/

theorem Stores.mem {b : ShareFoodBuffer} {live : List Slot} (h : Stores b live) {i : Nat}
    (hi : i < b.count) : b.items i ∈ live := by
  have hlt : i < live.length := h.count ▸ hi
  rw [h.items, layout_of_lt hlt]
  exact List.getElem_mem hlt

/-- The array of a list holds the list and cleared slots. -/
theorem layout_mem (l : List Slot) (i : Nat) :
    layout Slot.zeroed l i ∈ l ∨ (layout Slot.zeroed l i).cooking = none := by
  rcases Nat.lt_or_ge i l.length with hlt | hge
  · rw [layout_of_lt hlt]
    exact Or.inl (List.getElem_mem hlt)
  · rw [layout_of_le hge]
    exact Or.inr rfl

theorem Removal.Shape.visible {b : ShareFoodBuffer} {live : List Slot} {r : Removal}
    (h : r.Shape b live) {i : Nat} (hi : i < b.count) :
    b.items i ∈ live ∨ (b.items i).cooking = none := by
  have hshifted : ∀ k idx, b.items = shifted .zeroed live k idx →
      b.items i ∈ live ∨ (b.items i).cooking = none := by
    intro k idx hitems
    rw [hitems, shifted]
    split
    · exact layout_mem live (i + 1)
    · exact layout_mem live i
  have herased : ∀ k, b.items = layout .zeroed (live.eraseIdx k) →
      b.items i ∈ live ∨ (b.items i).cooking = none := by
    intro k hitems
    rw [hitems]
    exact (layout_mem _ i).imp_left fun hmem => List.mem_of_mem_eraseIdx hmem
  cases r with
  | readItem count => exact Or.inl (h.1.mem hi)
  | shiftRead count k item idx => exact hshifted k idx h.2.2.1
  | shiftWrite count k item idx next => exact hshifted k idx h.2.2.1
  | clear count k item => exact herased k h.2.2
  | writeCount count k item => exact herased k h.2.2

/-- **What the array holds below `count`**: the dishes of the tray, the one just put there, and
    cleared slots. -/
theorem Ctrl.Shape.visible {t : ShmIdx} {n : Nat} {b : ShareFoodBuffer} {live : List Slot}
    {c : Ctrl} (h : c.Shape t n b live) (hin : c.inside t) {i : Nat} (hi : i < b.count) :
    b.items i ∈ live ++ c.entered t ∨ (b.items i).cooking = none := by
  have hlive : Stores b live → b.items i ∈ live ++ c.entered t ∨ (b.items i).cooking = none :=
    fun hst => Or.inl (List.mem_append_left _ (hst.mem hi))
  have hremove : ∀ r : Removal, r.Shape b live →
      b.items i ∈ live ++ c.entered t ∨ (b.items i).cooking = none :=
    fun r hr => (hr.visible hi).imp_left (List.mem_append_left _)
  have herased : ∀ k, Stores b (live.eraseIdx k) →
      b.items i ∈ live ++ c.entered t ∨ (b.items i).cooking = none :=
    fun k hst => Or.inl (List.mem_append_left _ (List.mem_of_mem_eraseIdx (hst.mem hi)))
  cases c with
  | chef t₀ c =>
      cases c with
      | readCount => exact hlive h
      | postFull count | cook count | writeItem count food => exact hlive h.1
      | writeCount count slot =>
          -- the new dish is in the array, but not counted yet
          obtain ⟨hcount, -, -, hb, hitems⟩ := h
          have hlt : i < live.length := by omega
          refine Or.inl (List.mem_append_left _ ?_)
          rw [hitems, layout_of_lt (by simp; omega), List.getElem_append_left hlt]
          exact List.getElem_mem hlt
      | post slot =>
          rw [Ctrl.entered, if_pos hin.1]
          exact Or.inl (h.2.2.mem hi)
      | _ => cases hin.2
  | customer t₀ c =>
      cases c with
      | readCount => exact hlive h
      | postEmpty count | pickSleep count => exact hlive h.1
      | remove r => exact hremove r h
      | post k item => exact herased k h.2
      | _ => cases hin.2
  | hybrid c =>
      cases t with
      | vegan =>
          cases c with
          | waitNonVegan | readVegan => exact hlive h
          | readNonVegan v | postEmptyVegan v n | pickSleep v n => exact hlive h.1
          | removeVegan n r => exact hremove r h
          | postVegan n k item => exact herased k h.2
          | _ => cases hin
      | nonVegan =>
          cases c with
          | readVegan | readNonVegan v | postEmptyNonVegan => exact hlive h
          | postEmptyVegan v n | pickSleep v n | removeVegan n r | postVegan n k item =>
              exact hlive h.1
          | removeNonVegan v r => exact hremove r h
          | postNonVegan v k item => exact herased k h.2
          | _ => cases hin

/-! ## The invariant -/

variable {ι : Type}

/-- No dish on the tray carries as its id the count at which a chef is about to add a dish. -/
def IdUnused (s : Kitchen ι) (a : Act ι) : Prop :=
  match s.ctrl a.pid with
  | .chef t (.writeCount count _) =>
      ∀ i, i < count → ((s.food_shm t).buffer.items i).food.id ≠ count
  | _ => True

instance (s : Kitchen ι) (a : Act ι) : Decidable (IdUnused s a) := by
  unfold IdUnused
  split <;> infer_instance

/-- The dishes on the trays, and with them the one just put there, carry different ids. -/
structure Identified (s : Kitchen ι) : Prop where
  tray    : ∀ t, TrayInv t s
  live    : ∀ t, DistinctDishes (untaken t s.deeds)
  entered : ∀ t p, DistinctDishes (untaken t s.deeds ++ (s.ctrl p).entered t)
  counted : ∀ p, (s.ctrl p).Counted

theorem Ctrl.inside_of_entered {c : Ctrl} {t : ShmIdx} (h : c.entered t ≠ []) : c.inside t := by
  cases c with
  | chef t₀ c =>
      cases c with
      | post slot =>
          rw [Ctrl.entered] at h
          split at h
          · exact ⟨‹_›, rfl⟩
          · exact absurd rfl h
      | _ => exact absurd rfl h
  | customer t₀ c => exact absurd rfl h
  | hybrid c => exact absurd rfl h

/-- Different dishes on a tray carry different ids. -/
theorem Identified.distinctIds {s : Kitchen ι} (hI : Identified s) (t : ShmIdx) :
    DistinctIds (s.food_shm t).buffer := by
  obtain ⟨L, hB⟩ := hI.tray t
  have hlist : ∃ l, DistinctDishes l ∧ ∀ i, i < (s.food_shm t).buffer.count →
      (s.food_shm t).buffer.items i ∈ l ∨ ((s.food_shm t).buffer.items i).cooking = none := by
    by_cases hin : ∃ p, (s.ctrl p).inside t
    · obtain ⟨p, hp⟩ := hin
      refine ⟨_, hI.entered t p, fun i hi => ?_⟩
      rw [hB.accounts.untaken]
      exact (hB.busy p hp).visible hp hi
    · refine ⟨_, hI.live t, fun i hi => Or.inl ?_⟩
      rw [hB.accounts.untaken]
      exact (hB.quiet fun p hp => hin ⟨p, hp⟩).mem hi
  obtain ⟨l, hl, hmem⟩ := hlist
  intro i j m n hij hj hm hn hne
  have hi' := (hmem i (by omega)).resolve_right (by rw [hm]; simp)
  have hj' := (hmem j hj).resolve_right (by rw [hn]; simp)
  exact hl _ hi' _ hj' (by rw [hm, hn]; simpa using hne)

/-- A dish in the books has been cooked, as one of the dishes so far. -/
theorem Accounts.cooking_lt {t : ShmIdx} {ds : List Deed} {L : Ledger Slot} (hA : Accounts t ds L)
    {d : Slot} (hd : d ∈ L.remaining) : ∃ n, n < L.made.length ∧ d.cooking = some n := by
  have hmem : d.cooking ∈ L.made.map Slot.cooking :=
    List.mem_map_of_mem (Ledger.mem_remaining.mp hd).1
  rw [hA.serial] at hmem
  obtain ⟨n, hn, heq⟩ := List.mem_map.mp hmem
  exact ⟨n, List.mem_range.mp hn, heq.symm⟩

/-- The dishes on a tray come from different cooking events. -/
theorem Accounts.cooking_nodup {t : ShmIdx} {ds : List Deed} {L : Ledger Slot}
    (hA : Accounts t ds L) : (L.remaining.map Slot.cooking).Nodup := by
  have hmade : (L.made.map Slot.cooking).Nodup := by
    rw [hA.serial]
    exact List.nodup_range.map fun _ _ h => Option.some.inj h
  exact hmade.sublist (List.filter_sublist.map _)

/-- On a free tray `items[0 … count)` are different dishes. -/
theorem TrayInv.different_dishes {t : ShmIdx} {s : Kitchen ι} (hinv : TrayInv t s)
    (hfree : 0 < (s.food_shm t).sem) {i j : Nat} (hij : i < j)
    (hj : j < (s.food_shm t).buffer.count) :
    ∃ m n, ((s.food_shm t).buffer.items i).cooking = some m ∧
      ((s.food_shm t).buffer.items j).cooking = some n ∧ m ≠ n := by
  obtain ⟨L, hB⟩ := hinv
  have hst := hB.quiet (hB.lock.outside_of_pos hfree)
  have hjlt : j < L.remaining.length := hst.count ▸ hj
  have hilt : i < L.remaining.length := by omega
  obtain ⟨m, -, hm⟩ := hB.accounts.cooking_lt (hst.mem (show i < _ by omega))
  obtain ⟨n, -, hn⟩ := hB.accounts.cooking_lt (hst.mem hj)
  refine ⟨m, n, hm, hn, ?_⟩
  rintro rfl
  rw [hst.items, layout_of_lt hilt] at hm
  rw [hst.items, layout_of_lt hjlt] at hn
  have hne := List.pairwise_iff_getElem.mp hB.accounts.cooking_nodup i j (by simpa using hilt)
    (by simpa using hjlt) hij
  rw [List.getElem_map, List.getElem_map, hm, hn] at hne
  exact hne rfl

/-- A chef about to store the new count: the dishes on the tray, with the new one behind them. -/
theorem Identified.writeCount {s : Kitchen ι} (hI : Identified s) {p : ι} {t : ShmIdx}
    {count : Nat} {slot : Slot} (hc : s.ctrl p = .chef t (.writeCount count slot)) :
    ∃ L, TrayBooks t s L ∧ count = L.remaining.length ∧ slot.food.id = count ∧
      slot.cooking = some L.made.length ∧
      (s.food_shm t).buffer.items = layout .zeroed (L.remaining ++ [slot]) := by
  obtain ⟨L, hB⟩ := hI.tray t
  have hshape := hB.busy p (by rw [hc]; exact ⟨rfl, rfl⟩)
  rw [hc] at hshape
  obtain ⟨hcount, -, hfresh, -, hitems⟩ := hshape
  have hid := hI.counted p
  rw [hc] at hid
  exact ⟨L, hB, hcount, hid, hfresh.cooking, hitems⟩

variable [DecidableEq ι] {rand : ι → Nat → Nat}

omit [DecidableEq ι] in
/-- Only leaving the section changes the books. -/
theorem TrayMove.untaken {t : ShmIdx} {n : Nat} {c : Ctrl} {mem : ShareMemory} {m : Move Ctrl}
    (h : TrayMove t n c mem m) (hc : ¬ c.inside t ∨ m.ctrl.inside t) (ds : List Deed) :
    SemaphoreKitchen.untaken t (ds ++ m.deeds) = SemaphoreKitchen.untaken t ds := by
  cases h with
  | untouched _ _ _ hcook htake => exact untaken_idle hcook htake
  | enter _ _ _ _ hcook htake => exact untaken_idle hcook htake
  | work _ _ _ hcook htake => exact untaken_idle hcook htake
  | leave hin hout => exact absurd hc (by simp [hin, hout])

omit [DecidableEq ι] in
/-- Whatever a step does, the dishes left on the tray carry different ids. -/
theorem Identified.live_step {s : Kitchen ι} {p : ι} {m : Move Ctrl} {t : ShmIdx}
    {L : Ledger Slot} (hI : Identified s) (hB : TrayBooks t s L)
    (hmove : TrayMove t L.made.length (s.ctrl p) (s.food_shm t) m)
    (hcooked : cookedOn t m.deeds = (s.ctrl p).entered t) :
    DistinctDishes (untaken t (s.deeds ++ m.deeds)) := by
  cases hmove with
  | untouched hc hc' hmem hcook htake =>
      rw [untaken_idle hcook htake]
      exact hI.live t
  | enter hc hc' hpos hmem hcook htake =>
      rw [untaken_idle hcook htake]
      exact hI.live t
  | work hc hc' hsem hcook htake =>
      rw [untaken_idle hcook htake]
      exact hI.live t
  | leave hc hc' hmem heffect =>
      cases heffect _ (hB.busy p hc) with
      | nothing hcook htake =>
          rw [untaken_idle hcook htake]
          exact hI.live t
      | cook d hcook htake hfresh =>
          -- the dish has been on the tray since its count was stored
          have hd := hI.entered t p
          rw [← hcooked, hcook] at hd
          rw [untaken_cook hB.accounts hfresh.cooking hcook htake]
          exact hd
      | take k d hcook htake hk =>
          rw [← hB.accounts.untaken] at hk
          rw [untaken_take hB.accounts hk hcook htake]
          exact (hI.live t).subset (List.eraseIdx_subset)

/-- **One step** keeps ids apart if a dish that is put on a tray gets one that is not in use. -/
theorem Identified.step {s s' : Kitchen ι} {a : Act ι} (hI : Identified s) (hok : IdUnused s a)
    (h : SemaphoreKitchen.step rand s a = some s') : Identified s' := by
  have htray : ∀ t, TrayInv t s' := fun t => (hI.tray t).step h
  obtain ⟨m, hm, rfl⟩ := Option.map_eq_some_iff.mp h
  have hmove : ∀ t L, TrayBooks t s L →
      TrayMove t L.made.length (s.ctrl a.pid) (s.food_shm t) m := by
    intro t L hB
    have hserial : (s.env rand a).serial t = L.made.length :=
      congrArg List.length hB.accounts.made.symm
    rw [← hserial]
    exact routine_trayMove hm t
  have hlive : ∀ t, DistinctDishes (untaken t (s.deeds ++ m.deeds)) := by
    intro t
    obtain ⟨L, hB⟩ := hI.tray t
    exact hI.live_step hB (hmove t L hB) (routine_cooked hm t)
  refine ⟨htray, fun t => by rw [commit_deeds]; exact hlive t, ?_, ?_⟩
  · intro t p
    rw [commit_deeds]
    obtain ⟨L, hB⟩ := hI.tray t
    by_cases hp : p = a.pid
    · subst hp
      rw [commit_ctrl_self]
      rcases routine_entered hm t with hnil | ⟨count, slot, hc, hc'⟩
      · rw [hnil, List.append_nil]
        exact hlive t
      · -- the new dish against those on the tray
        obtain ⟨L', hB', hcount, hid, -, hitems⟩ := hI.writeCount hc
        have hin : m.ctrl.inside t := by rw [hc']; exact ⟨rfl, rfl⟩
        rw [(hmove t L hB).untaken (Or.inr hin), hc', Ctrl.entered, if_pos rfl]
        refine (hI.live t).concat ?_
        intro x hx
        rw [hB'.accounts.untaken] at hx
        obtain ⟨i, hi, rfl⟩ := List.getElem_of_mem hx
        rw [IdUnused, hc] at hok
        have hne := hok i (by omega)
        rw [hitems, layout_of_lt (by simp; omega), List.getElem_append_left hi] at hne
        rw [hid]
        exact hne
    · rw [commit_ctrl_other s m hp]
      by_cases hent : (s.ctrl p).entered t = []
      · rw [hent, List.append_nil]
        exact hlive t
      · -- the chef is inside, so the step is somebody else's and outside
        have hout : ¬ (s.ctrl a.pid).inside t := fun hin =>
          hp (hB.lock.unique hin (Ctrl.inside_of_entered hent))
        rw [(hmove t L hB).untaken (Or.inl hout)]
        exact hI.entered t p
  · intro p
    by_cases hp : p = a.pid
    · subst hp
      rw [commit_ctrl_self]
      exact routine_counted hm (hI.counted _)
    · rw [commit_ctrl_other s m hp]
      exact hI.counted p

/-- A dish with an id in use makes two dishes with one id. -/
theorem Identified.collision {s s' : Kitchen ι} {a : Act ι} (hI : Identified s)
    (hbad : ¬ IdUnused s a) (h : SemaphoreKitchen.step rand s a = some s') :
    ∃ t, ¬ DistinctIds (s'.food_shm t).buffer := by
  obtain ⟨m, hm, rfl⟩ := Option.map_eq_some_iff.mp h
  rw [IdUnused] at hbad
  split at hbad
  case h_2 => exact absurd trivial hbad
  case h_1 t count slot hc =>
    obtain ⟨i, hi, hid⟩ : ∃ i, i < count ∧
        ((s.food_shm t).buffer.items i).food.id = count := by
      simpa using hbad
    obtain ⟨L, hB, hcount, hslot, hcooking, hitems⟩ := hI.writeCount hc
    have hbuffer : ((s.commit a.pid m).food_shm t).buffer
        = (s.food_shm t).buffer.setCount (count + 1) := by
      rw [hc, routine_chef] at hm
      obtain ⟨m₀, hm₀, rfl⟩ := Option.map_eq_some_iff.mp hm
      cases hm₀
      show (store s.food_shm t _ t).buffer = _
      rw [store_same]
    have hilt : i < L.remaining.length := by omega
    have hat : (s.food_shm t).buffer.items i = L.remaining[i] := by
      rw [hitems, layout_of_lt (by simp; omega), List.getElem_append_left hilt]
    have hnew : (s.food_shm t).buffer.items count = slot := by
      rw [hitems, layout_of_lt (by simp; omega), List.getElem_append_right (by omega)]
      simp [hcount]
    obtain ⟨n, hn, hcook⟩ := hB.accounts.cooking_lt (List.getElem_mem hilt)
    refine ⟨t, fun hdist => ?_⟩
    rw [hbuffer] at hdist
    refine hdist i count n L.made.length hi (Nat.lt_succ_self _) ?_ ?_ (by omega) ?_
    · rw [ShareFoodBuffer.setCount_items, hat, hcook]
    · rw [ShareFoodBuffer.setCount_items, hnew, hcooking]
    · rw [ShareFoodBuffer.setCount_items, hid, hnew, hslot]

omit [DecidableEq ι] in
theorem Identified.opening (role : ι → Role) : Identified (opening role) := by
  have hctrl : ∀ p t, ((SemaphoreKitchen.opening role).ctrl p).entered t = [] ∧
      ((SemaphoreKitchen.opening role).ctrl p).Counted := by
    intro p t
    show (role p).start.entered t = [] ∧ (role p).start.Counted
    cases role p <;> exact ⟨rfl, trivial⟩
  have hempty : ∀ t, untaken t (SemaphoreKitchen.opening role).deeds = [] := fun _ => rfl
  refine ⟨TrayInv.opening role, ?_, ?_, fun p => (hctrl p .vegan).2⟩
  · intro t
    rw [hempty]
    intro x hx
    cases hx
  · intro t p
    rw [hempty, (hctrl p t).1]
    intro x hx
    cases hx

/-- **IDS AND DISHES.**  In every state that a run passes through different dishes on a tray carry
    different ids, exactly if no dish is put on a tray while one there carries as its id the number
    of dishes on it.  On a free tray any two of `items[0 … count)` are different dishes. -/
theorem ids_distinct_iff (role : ι → Role) (rand : ι → Nat → Nat) (acts : List (Act ι))
    (s : Kitchen ι) (h : run (SemaphoreKitchen.step rand) (opening role) acts = some s) :
    (Throughout (SemaphoreKitchen.step rand)
        (fun u => ∀ t, DistinctIds (u.food_shm t).buffer) (opening role) acts ↔
      runWhen (SemaphoreKitchen.step rand) IdUnused (opening role) acts = some s) ∧
    ∀ t, 0 < (s.food_shm t).sem → ∀ i j, i < j → j < (s.food_shm t).buffer.count →
      ∃ m n, ((s.food_shm t).buffer.items i).cooking = some m ∧
        ((s.food_shm t).buffer.items j).cooking = some n ∧ m ≠ n := by
  refine ⟨?_, fun t hfree i j hij hj =>
    (trayInv_reach (reachable_of_run h) t).different_dishes hfree hij hj⟩
  refine throughout_iff_runWhen (J := Identified) (fun u hu => hu.distinctIds)
    (fun u a u' hu hok hs => hu.step hok hs) ?_ (Identified.opening role) h
  intro u a u' hu hbad hs hall
  obtain ⟨t, ht⟩ := hu.collision hbad hs
  exact ht (hall t)

/-- Two dishes are cooked, the first one is taken, and another one is cooked. -/
def refill : List (Act Bool) :=
  List.replicate 16 { pid := false } ++ List.replicate 12 { pid := true }
    ++ List.replicate 7 { pid := false }

/-- As long as the dishes are only cooked and the first one is taken, the ids are different. -/
theorem ids_distinct_before_refill :
    Throughout (SemaphoreKitchen.step fun _ _ => 0)
      (fun u => ∀ t, DistinctIds (u.food_shm t).buffer) (opening veganPair) (refill.take 28) := by
  obtain ⟨s, hs, -⟩ := Option.map_eq_some_iff.mp
    (show (runWhen (SemaphoreKitchen.step fun _ _ => 0) IdUnused (opening veganPair)
      (refill.take 28)).map (fun _ => ()) = some () by decide +kernel)
  exact (ids_distinct_iff veganPair (fun _ _ => 0) (refill.take 28) s (run_of_runWhen hs)).1.mpr hs

/-- After the refill the two dishes on the free tray both carry the id `1`. -/
theorem refill_repeats_id :
    ∃ s : Kitchen Bool, Reachable (SemaphoreKitchen.step fun _ _ => 0) (opening veganPair) s ∧
      (s.food_shm .vegan).sem = 1 ∧ (s.food_shm .vegan).buffer.count = 2 ∧
      (liveSlots (s.food_shm .vegan).buffer).map (fun d => (d.cooking, d.food.id))
        = [(some 1, 1), (some 2, 1)] := by
  obtain ⟨s, hs, hf⟩ := reachable_of_run_map (SemaphoreKitchen.step fun _ _ => 0)
    (opening veganPair) refill
    (fun s => ((s.food_shm .vegan).sem, (s.food_shm .vegan).buffer.count,
      (liveSlots (s.food_shm .vegan).buffer).map fun d => (d.cooking, d.food.id)))
    (c := (1, 2, [(some 1, 1), (some 2, 1)])) (by decide +kernel)
  refine ⟨s, hs, ?_⟩
  simpa using hf

end SemaphoreKitchen
