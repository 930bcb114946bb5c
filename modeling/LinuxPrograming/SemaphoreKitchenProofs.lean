import LinuxPrograming.TransitionProofs

/-!
# The restaurant: chefs and customers around two shared trays (`10-Semaphore/main.c`)

Two `ShareFoodBuffer`s live in shared memory, one for vegan and one for non-vegan food, each
guarded by a POSIX semaphore that starts at `1`.  Any number of processes run one of five routines
on them.  The model interleaves the processes at the grain of the source: one step is one
`sem_wait`, one `sem_post`, one read or write of `count`, or one read or write of a slot, together
with the purely local computation that follows it.

* Local variables are arguments of the control point, so a stale `count` is visible as such.
* `rand()` is private to a process (each one calls `srand` after the fork): `rand p k` is the
  result of the `k`-th call in process `p`.  What changes from outside a process — the outcome of
  testing `is_running`, the clock — is part of the action.
* `sleep` and `usleep` only delay, and every delay is an interleaving.

Two ghosts are added, neither of which any step reads for its control flow: a slot remembers which
cooking event filled it, and `events` lists what the processes have completed.
-/

namespace SemaphoreKitchen

open Transition

/-! ## Shared memory -/

/-- The index into `food_shm`: `VEGAN_SHM_IDX` and `NON_VEGAN_SHM_IDX`. -/
inductive ShmIdx where
  | vegan
  | nonVegan
deriving DecidableEq

def MAX_ITEM : Nat := 10

structure Food where
  id   : Int
  time : Int
  dish : String
deriving DecidableEq

/-- One element of `items`.  `cooking` is a ghost: the number, on its tray, of the cooking event
    that wrote the food.  Struct assignment copies it along, `memset` clears it. -/
structure Slot where
  food    : Food
  cooking : Option Nat
deriving DecidableEq

/-- What `memset(…, 0x00, sizeof(Food))` leaves. -/
def Slot.zeroed : Slot := ⟨⟨0, 0, ""⟩, none⟩

/-- The indices `0 … MAX_ITEM - 1` of `items` are the array; the larger ones are the bytes that
    follow it in the mapped page. -/
structure ShareFoodBuffer where
  count : Nat
  items : Nat → Slot

namespace ShareFoodBuffer

def setItem (b : ShareFoodBuffer) (i : Nat) (d : Slot) : ShareFoodBuffer :=
  { b with items := Function.update b.items i d }

def setCount (b : ShareFoodBuffer) (count : Nat) : ShareFoodBuffer := { b with count := count }

@[simp] theorem setItem_count (b : ShareFoodBuffer) (i : Nat) (d : Slot) :
    (b.setItem i d).count = b.count := rfl
@[simp] theorem setItem_items (b : ShareFoodBuffer) (i : Nat) (d : Slot) :
    (b.setItem i d).items = Function.update b.items i d := rfl
@[simp] theorem setCount_count (b : ShareFoodBuffer) (count : Nat) :
    (b.setCount count).count = count := rfl
@[simp] theorem setCount_items (b : ShareFoodBuffer) (count : Nat) :
    (b.setCount count).items = b.items := rfl

end ShareFoodBuffer

/-- A tray: the mapped buffer and the value of its semaphore. -/
structure ShareMemory where
  buffer : ShareFoodBuffer
  sem    : Nat

/-- `food_shm[2]`. -/
abbrev Trays := ShmIdx → ShareMemory

/-- `sem_wait` on one tray; blocked while the value is `0`. -/
def sem_wait (mem : Trays) (t : ShmIdx) : Option Trays :=
  if 0 < (mem t).sem then
    some (Function.update mem t { mem t with sem := (mem t).sem - 1 })
  else none

/-- `sem_post` on one tray. -/
def sem_post (mem : Trays) (t : ShmIdx) : Trays :=
  Function.update mem t { mem t with sem := (mem t).sem + 1 }

/-- A plain store into one tray's buffer. -/
def store (mem : Trays) (t : ShmIdx) (b : ShareFoodBuffer) : Trays :=
  Function.update mem t { mem t with buffer := b }

def non_vegan_name : List String := ["Fettuccine Chicken Alfredo", "Garlic Sirloin Steak"]

def vegan_name : List String := ["Pistachio Pesto Pasta", "Avocado Fruit Salad"]

/-! ## What one step sees and does -/

/-- The surroundings of one step: the results of the next `rand()` calls of this process, the value
    `is_running` is read as, the clock, and (ghost) the number of dishes cooked on each tray. -/
structure Env where
  rand    : Nat → Nat
  running : Bool
  now     : Int
  serial  : ShmIdx → Nat

/-- What an iteration of a routine has achieved: a dish put on a tray, a dish obtained from a tray,
    or nothing, because the tray was full (or a tray was empty). -/
inductive Deed where
  | cooked (t : ShmIdx) (d : Slot)
  | took (t : ShmIdx) (d : Slot)
  | passed
deriving DecidableEq

/-- The effect of one step: the shared memory, the next control point, how many `rand()` calls were
    made, and what was completed. -/
structure Move (C : Type) where
  food_shm : Trays
  ctrl     : C
  rands    : Nat := 0
  deeds    : List Deed := []

def Move.map {C D : Type} (f : C → D) (m : Move C) : Move D :=
  ⟨m.food_shm, f m.ctrl, m.rands, m.deeds⟩

/-! ## The chefs -/

/-- Control points of a chef, with the locals that are live there. -/
inductive ChefCtrl where
  | loop
  | wait
  | readCount
  | postFull (count : Nat)
  | cook (count : Nat)
  | writeItem (count : Nat) (food : Food)
  | writeCount (count : Nat) (slot : Slot)
  | post (slot : Slot)
  | log (slot : Slot)
  | home

/-- The routine `chefDonatello` and `chefPortecelli` share: cook on tray `t` from the menu
    `names`.  The dish names are shorter than `dish[255]`, so `snprintf` copies them whole. -/
def chef (t : ShmIdx) (names : List String) (e : Env) (mem : Trays) :
    ChefCtrl → Option (Move ChefCtrl)
  | .loop => some { food_shm := mem, ctrl := if e.running then .wait else .home }
  | .wait => (sem_wait mem t).map fun mem' => { food_shm := mem', ctrl := .readCount }
  | .readCount =>
      let count := (mem t).buffer.count
      some { food_shm := mem, ctrl := if MAX_ITEM ≤ count then .postFull count else .cook count }
  | .postFull _ => some { food_shm := sem_post mem t, ctrl := .loop, deeds := [.passed] }
  | .cook count =>
      -- the first call, `rand() % 5 + 1`, only feeds `sleep`
      let food_idx := e.rand 1 % 2
      some { food_shm := mem
             ctrl := .writeItem count ⟨count, e.now, names.getD food_idx ""⟩
             rands := 2 }
  | .writeItem count food =>
      let slot : Slot := ⟨food, some (e.serial t)⟩
      some { food_shm := store mem t ((mem t).buffer.setItem count slot)
             ctrl := .writeCount count slot }
  | .writeCount count slot =>
      some { food_shm := store mem t ((mem t).buffer.setCount (count + 1)), ctrl := .post slot }
  | .post slot => some { food_shm := sem_post mem t, ctrl := .log slot, deeds := [.cooked t slot] }
  | .log _ => some { food_shm := mem, ctrl := .loop }
  | .home => none

def chefDonatello : Env → Trays → ChefCtrl → Option (Move ChefCtrl) :=
  chef .nonVegan non_vegan_name

def chefPortecelli : Env → Trays → ChefCtrl → Option (Move ChefCtrl) :=
  chef .vegan vegan_name

/-! ## Taking one dish from a tray

    The same lines stand in `nonVeganCustomer`, `veganCustomer` and twice in `hybridCustomer`: pick
    an index, copy the dish out, shift the rest down, clear slot `count`, store `count - 1`. -/

/-- Control points of a removal; `food_idx` and `item` are the picked index and dish. -/
inductive Removal where
  | readItem (count : Nat)
  | shiftRead (count food_idx : Nat) (item : Slot) (idx : Nat)
  | shiftWrite (count food_idx : Nat) (item : Slot) (idx : Nat) (next : Slot)
  | clear (count food_idx : Nat) (item : Slot)
  | writeCount (count food_idx : Nat) (item : Slot)

namespace Removal

/-- The loop test `idx < count`. -/
def shiftTest (count food_idx : Nat) (item : Slot) (idx : Nat) : Removal :=
  if idx < count then .shiftRead count food_idx item idx else .clear count food_idx item

/-- One step of a removal; it ends with the picked index and the dish in hand. -/
def step (rand : Nat) (b : ShareFoodBuffer) : Removal → ShareFoodBuffer × (Removal ⊕ Nat × Slot)
  | .readItem count =>
      let food_idx := rand % count
      (b, .inl (shiftTest count food_idx (b.items food_idx) food_idx))
  | .shiftRead count food_idx item idx =>
      (b, .inl (.shiftWrite count food_idx item idx (b.items (idx + 1))))
  | .shiftWrite count food_idx item idx next =>
      (b.setItem idx next, .inl (shiftTest count food_idx item (idx + 1)))
  | .clear count food_idx item =>
      (b.setItem count .zeroed, .inl (.writeCount count food_idx item))
  | .writeCount count food_idx item => (b.setCount (count - 1), .inr (food_idx, item))

/-- The number of `rand()` calls in that step. -/
def rands : Removal → Nat
  | .readItem _ => 1
  | _           => 0

end Removal

/-! ## The customers of one tray -/

/-- Control points of a customer of one tray. -/
inductive CustomerCtrl where
  | loop
  | wait
  | readCount
  | postEmpty (count : Nat)
  | pickSleep (count : Nat)
  | remove (r : Removal)
  | post (food_idx : Nat) (item : Slot)
  | log (item : Slot)
  | home

/-- The routine `nonVeganCustomer` and `veganCustomer` share. -/
def customer (t : ShmIdx) (e : Env) (mem : Trays) : CustomerCtrl → Option (Move CustomerCtrl)
  | .loop => some { food_shm := mem, ctrl := if e.running then .wait else .home }
  | .wait => (sem_wait mem t).map fun mem' => { food_shm := mem', ctrl := .readCount }
  | .readCount =>
      let count := (mem t).buffer.count
      some { food_shm := mem, ctrl := if count = 0 then .postEmpty count else .pickSleep count }
  | .postEmpty _ => some { food_shm := sem_post mem t, ctrl := .loop, deeds := [.passed] }
  | .pickSleep count =>
      -- `rand() % 6 + 10` only feeds `sleep`
      some { food_shm := mem, ctrl := .remove (.readItem count), rands := 1 }
  | .remove r =>
      let out := r.step (e.rand 0) (mem t).buffer
      some { food_shm := store mem t out.1
             ctrl := out.2.elim .remove fun d => .post d.1 d.2
             rands := r.rands }
  | .post _ item => some { food_shm := sem_post mem t, ctrl := .log item, deeds := [.took t item] }
  | .log _ => some { food_shm := mem, ctrl := .loop }
  | .home => none

def nonVeganCustomer : Env → Trays → CustomerCtrl → Option (Move CustomerCtrl) :=
  customer .nonVegan

def veganCustomer : Env → Trays → CustomerCtrl → Option (Move CustomerCtrl) :=
  customer .vegan

/-! ## The customer of both trays -/

/-- Control points of `hybridCustomer`. -/
inductive HybridCtrl where
  | loop
  | waitVegan
  | waitNonVegan
  | readVegan
  | readNonVegan (vegan_cnt : Nat)
  | postEmptyVegan (vegan_cnt non_vegan_cnt : Nat)
  | postEmptyNonVegan
  | pickSleep (vegan_cnt non_vegan_cnt : Nat)
  | removeVegan (non_vegan_cnt : Nat) (r : Removal)
  | postVegan (non_vegan_cnt vegan_idx : Nat) (vegan_item : Slot)
  | removeNonVegan (vegan_item : Slot) (r : Removal)
  | postNonVegan (vegan_item : Slot) (non_vegan_idx : Nat) (non_vegan_item : Slot)
  | log (vegan_item non_vegan_item : Slot)
  | home

/-- The vegan semaphore is posted before the non-vegan tray is touched. -/
def hybridCustomer (e : Env) (mem : Trays) : HybridCtrl → Option (Move HybridCtrl)
  | .loop => some { food_shm := mem, ctrl := if e.running then .waitVegan else .home }
  | .waitVegan => (sem_wait mem .vegan).map fun mem' => { food_shm := mem', ctrl := .waitNonVegan }
  | .waitNonVegan =>
      (sem_wait mem .nonVegan).map fun mem' => { food_shm := mem', ctrl := .readVegan }
  | .readVegan => some { food_shm := mem, ctrl := .readNonVegan (mem .vegan).buffer.count }
  | .readNonVegan vegan_cnt =>
      let non_vegan_cnt := (mem .nonVegan).buffer.count
      some { food_shm := mem
             ctrl := if vegan_cnt = 0 ∨ non_vegan_cnt = 0
               then .postEmptyVegan vegan_cnt non_vegan_cnt
               else .pickSleep vegan_cnt non_vegan_cnt }
  | .postEmptyVegan _ _ =>
      some { food_shm := sem_post mem .vegan, ctrl := .postEmptyNonVegan, deeds := [.passed] }
  | .postEmptyNonVegan => some { food_shm := sem_post mem .nonVegan, ctrl := .loop }
  | .pickSleep vegan_cnt non_vegan_cnt =>
      some { food_shm := mem, ctrl := .removeVegan non_vegan_cnt (.readItem vegan_cnt), rands := 1 }
  | .removeVegan non_vegan_cnt r =>
      let out := r.step (e.rand 0) (mem .vegan).buffer
      some { food_shm := store mem .vegan out.1
             ctrl := out.2.elim (.removeVegan non_vegan_cnt) fun d =>
               .postVegan non_vegan_cnt d.1 d.2
             rands := r.rands }
  | .postVegan non_vegan_cnt _ vegan_item =>
      some { food_shm := sem_post mem .vegan
             ctrl := .removeNonVegan vegan_item (.readItem non_vegan_cnt)
             deeds := [.took .vegan vegan_item] }
  | .removeNonVegan vegan_item r =>
      let out := r.step (e.rand 0) (mem .nonVegan).buffer
      some { food_shm := store mem .nonVegan out.1
             ctrl := out.2.elim (.removeNonVegan vegan_item) fun d =>
               .postNonVegan vegan_item d.1 d.2
             rands := r.rands }
  | .postNonVegan vegan_item _ non_vegan_item =>
      some { food_shm := sem_post mem .nonVegan
             ctrl := .log vegan_item non_vegan_item
             deeds := [.took .nonVegan non_vegan_item] }
  | .log _ _ => some { food_shm := mem, ctrl := .loop }
  | .home => none

/-! ## The whole restaurant -/

/-- The five entries of `handlers`. -/
inductive Role where
  | chefDonatello
  | chefPortecelli
  | nonVeganCustomer
  | veganCustomer
  | hybridCustomer
deriving DecidableEq

/-- Where a process is.  The tray of a chef or a customer tells which routine it runs. -/
inductive Ctrl where
  | chef (t : ShmIdx) (c : ChefCtrl)
  | customer (t : ShmIdx) (c : CustomerCtrl)
  | hybrid (c : HybridCtrl)

/-- The start of each routine. -/
def Role.start : Role → Ctrl
  | .chefDonatello    => .chef .nonVegan .loop
  | .chefPortecelli   => .chef .vegan .loop
  | .nonVeganCustomer => .customer .nonVegan .loop
  | .veganCustomer    => .customer .vegan .loop
  | .hybridCustomer   => .hybrid .loop

/-- The routine a process is in. -/
def Ctrl.role : Ctrl → Role
  | .chef .nonVegan _     => .chefDonatello
  | .chef .vegan _        => .chefPortecelli
  | .customer .nonVegan _ => .nonVeganCustomer
  | .customer .vegan _    => .veganCustomer
  | .hybrid _             => .hybridCustomer

/-- One step of whatever routine the process runs. -/
def routine (e : Env) (mem : Trays) : Ctrl → Option (Move Ctrl)
  | .chef .nonVegan c     => (chefDonatello e mem c).map (Move.map (.chef .nonVegan))
  | .chef .vegan c        => (chefPortecelli e mem c).map (Move.map (.chef .vegan))
  | .customer .nonVegan c => (nonVeganCustomer e mem c).map (Move.map (.customer .nonVegan))
  | .customer .vegan c    => (veganCustomer e mem c).map (Move.map (.customer .vegan))
  | .hybrid c             => (hybridCustomer e mem c).map (Move.map .hybrid)

/-- The dishes cooked on tray `t`, in order. -/
def cookedOn (t : ShmIdx) (deeds : List Deed) : List Slot :=
  deeds.filterMap fun
    | .cooked t' d => if t' = t then some d else none
    | _            => none

/-- The dishes taken from tray `t`, in order. -/
def takenFrom (t : ShmIdx) (deeds : List Deed) : List Slot :=
  deeds.filterMap fun
    | .took t' d => if t' = t then some d else none
    | _          => none

/-- The restaurant: both trays, and for every process its control point and the number of `rand()`
    calls it has made; `events` (ghost) is the log of completed deeds. -/
structure Kitchen (ι : Type) where
  food_shm : Trays
  ctrl     : ι → Ctrl
  calls    : ι → Nat
  events   : List (ι × Deed)

/-- One scheduling decision: who moves, and what that process sees of the outside. -/
structure Act (ι : Type) where
  pid     : ι
  running : Bool := true
  now     : Int := 0

variable {ι : Type}

/-- All deeds so far, whoever did them. -/
def Kitchen.deeds (s : Kitchen ι) : List Deed := s.events.map Prod.snd

/-- What process `p` has done so far: one entry for each dish it cooked or obtained and one for
    each iteration it passed. -/
def Kitchen.deedsOf [DecidableEq ι] (s : Kitchen ι) (p : ι) : List Deed :=
  (s.events.filter fun e => e.1 = p).map Prod.snd

/-- What process `p` sees when it moves. -/
def Kitchen.env (rand : ι → Nat → Nat) (s : Kitchen ι) (a : Act ι) : Env where
  rand    := fun i => rand a.pid (s.calls a.pid + i)
  running := a.running
  now     := a.now
  serial  := fun t => (cookedOn t s.deeds).length

/-- Enter the effect of a step of process `p`. -/
def Kitchen.commit [DecidableEq ι] (s : Kitchen ι) (p : ι) (m : Move Ctrl) : Kitchen ι where
  food_shm := m.food_shm
  ctrl     := Function.update s.ctrl p m.ctrl
  calls    := Function.update s.calls p (s.calls p + m.rands)
  events   := s.events ++ m.deeds.map fun d => (p, d)

/-- One step of one process. -/
def step [DecidableEq ι] (rand : ι → Nat → Nat) (s : Kitchen ι) (a : Act ι) : Option (Kitchen ι) :=
  (routine (s.env rand a) s.food_shm (s.ctrl a.pid)).map (s.commit a.pid)

/-- Freshly created trays: `ftruncate` extends the segments with zero bytes, so `count` is `0` and
    every slot is clear; `sem_open` creates both semaphores with the value `1`. -/
def opening (role : ι → Role) : Kitchen ι where
  food_shm := fun _ => { buffer := ⟨0, fun _ => .zeroed⟩, sem := 1 }
  ctrl     := fun p => (role p).start
  calls    := fun _ => 0
  events   := []

end SemaphoreKitchen
