import LinuxPrograming.NamedObjectProofs
import LinuxPrograming.SemaphoreKitchenProofs
import Mathlib.Data.List.Infix
import Mathlib.Data.Fintype.Basic

/-!
# The trays of one run after the other (`10-Semaphore/main.c`)

The trays and their semaphores have names that outlive the program.  `shmInit` creates what it does
not find, `cleanup` unlinks the names, and both the parent and its children call `cleanup` when
`SIGINT` comes.  The parent does not wait for its children, so those of one run may still be at
work, or unlink names, while the next run starts.

* **`Inv`** — what a name is bound to is either used by the current run only or still untouched.
* **`runs_isolated`** — so each run is a run of the kitchen from freshly created trays, whatever the
  processes of earlier runs do, if no run is started before the last one has unlinked its names.
-/

namespace RestaurantTrays

open Transition SemaphoreKitchen

/-! ## The program -/

/-- The names of the objects of a tray. -/
inductive Name where
  | sem (t : ShmIdx)
  | shm (t : ShmIdx)
deriving DecidableEq

/-- `VEGAN_SHM_NAME` and `NON_VEGAN_SHM_NAME`. -/
def shmName : ShmIdx → String
  | .vegan    => "/vegan"
  | .nonVegan => "/non_vegan"

/-- The names as the kernel sees them. -/
def Name.text : Name → String
  | .shm t => shmName t
  | .sem t => shmName t ++ "_sem"

theorem Name.text_injective (n m : Name) (h : n.text = m.text) : n = m := by
  rcases n with ⟨⟨⟩⟩ | ⟨⟨⟩⟩ <;> rcases m with ⟨⟨⟩⟩ | ⟨⟨⟩⟩ <;>
    first | rfl | exact absurd h (by decide)

/-- `sizeof(ShareFoodBuffer)`. -/
def len : Nat := 2728

/-- A semaphore or a piece of shared memory. -/
inductive Object where
  | sem (value : Nat)
  | mem (len : Nat) (buffer : ShareFoodBuffer)

def Object.value : Object → Nat
  | .sem value => value
  | .mem _ _   => 0

def Object.buffer : Object → ShareFoodBuffer
  | .sem _        => ⟨0, fun _ => .zeroed⟩
  | .mem _ buffer => buffer

/-- What `sem_open` and `shm_open` create. -/
def Object.created : Name → Object
  | .sem _ => .sem 1
  | .shm _ => .mem 0 ⟨0, fun _ => .zeroed⟩

/-- `ftruncate`; the memory is filled with zeros and never gets shorter. -/
def Object.truncate : Object → Object
  | .sem value    => .sem value
  | .mem _ buffer => .mem len buffer

/-- The system calls of `shmInit`, on the tray `t`. -/
inductive Call where
  | sem_open (t : ShmIdx)
  | shm_open (t : ShmIdx)
  | ftruncate (t : ShmIdx)
  | mmap (t : ShmIdx)
deriving DecidableEq

def shmInit (t : ShmIdx) : List Call := [.sem_open t, .shm_open t, .ftruncate t, .mmap t]

/-- The calls of `main` before it forks. -/
def mainCalls : List Call := shmInit .vegan ++ shmInit .nonVegan

/-- Where a run is: in `shmInit` with the calls `todo` to go, with its children at work, or ended
    before it has forked. -/
inductive Phase where
  | init (todo : List Call)
  | service
  | failed

/-- A run: the objects it has opened, its processes, and (ghost) the names that it has unlinked
    since its children are at work.  The trays of `kitchen` are those among the objects. -/
structure Run (ι : Type) where
  phase    : Phase
  id       : Name → Nat
  kitchen  : Kitchen ι
  unlinked : Name → Bool

/-- The objects with their names, and the runs so far. -/
structure State (ρ ι : Type) where
  objs : NamedObjects Name Object
  run  : ρ → Option (Run ι)

/-- `serve` is a step of a process of the run, `unlink` a call in `cleanup`, by any of them. -/
inductive Act (ρ ι : Type) where
  | start (r : ρ)
  | init (r : ρ) (ok : Bool)
  | serve (r : ρ) (a : SemaphoreKitchen.Act ι)
  | unlink (r : ρ) (n : Name)

variable {ρ ι : Type}

/-- The trays of a run. -/
def Run.trays (x : Run ι) (objs : NamedObjects Name Object) : Trays := fun t =>
  ⟨(objs.object (x.id (.shm t))).buffer, (objs.object (x.id (.sem t))).value⟩

/-- The kitchen of a run, with its trays. -/
def Run.view (x : Run ι) (objs : NamedObjects Name Object) : Kitchen ι :=
  { x.kitchen with food_shm := x.trays objs }

/-- The trays of a run after a step of one of its processes. -/
def writeTrays (objs : NamedObjects Name Object) (id : Name → Nat) (mem : Trays) :
    NamedObjects Name Object :=
  [ShmIdx.vegan, .nonVegan].foldl (fun objs t =>
    (objs.write (id (.sem t)) (.sem (mem t).sem)).write (id (.shm t)) (.mem len (mem t).buffer)) objs

/-- A call of `shmInit` that succeeds: the objects and the ids of the run. -/
def Call.run (objs : NamedObjects Name Object) (id : Name → Nat) :
    Call → NamedObjects Name Object × (Name → Nat)
  | .sem_open t  =>
      let opened := objs.openCreate (.sem t) (.created (.sem t))
      (opened.1, Function.update id (.sem t) opened.2)
  | .shm_open t  =>
      let opened := objs.openCreate (.shm t) (.created (.shm t))
      (opened.1, Function.update id (.shm t) opened.2)
  | .ftruncate t => (objs.write (id (.shm t)) (objs.object (id (.shm t))).truncate, id)
  | .mmap _      => (objs, id)

variable [DecidableEq ρ] [DecidableEq ι]

def State.set (s : State ρ ι) (r : ρ) (objs : NamedObjects Name Object) (x : Run ι) : State ρ ι :=
  ⟨objs, Function.update s.run r (some x)⟩

def step (role : ρ → ι → Role) (rand : ρ → ι → Nat → Nat) (s : State ρ ι) :
    Act ρ ι → Option (State ρ ι)
  | .start r =>
      if (s.run r).isNone then
        some (s.set r s.objs
          ⟨.init mainCalls, fun _ => 0, SemaphoreKitchen.opening (role r), fun _ => false⟩)
      else none
  | .init r ok => (s.run r).bind fun x =>
      match x.phase with
      | .init []          => some (s.set r s.objs { x with phase := .service })
      | .init (c :: todo) =>
          if ok then
            let done := c.run s.objs x.id
            some (s.set r done.1 { x with phase := .init todo, id := done.2 })
          else some (s.set r s.objs { x with phase := .failed })
      | .service | .failed => none
  | .serve r a => (s.run r).bind fun x =>
      match x.phase with
      | .service => (SemaphoreKitchen.step (rand r) (x.view s.objs) a).map fun k =>
          s.set r (writeTrays s.objs x.id k.food_shm) { x with kitchen := k }
      | .init _ | .failed => none
  | .unlink r n => (s.run r).map fun x =>
      match x.phase with
      | .service =>
          s.set r (s.objs.unlink n) { x with unlinked := Function.update x.unlinked n true }
      | .init _ | .failed => s.set r (s.objs.unlink n) x

def opening : State ρ ι := ⟨.empty (.sem .vegan) (.sem 0), fun _ => none⟩

/-! ## What a run has to itself -/

def names : List Name := [.sem .vegan, .shm .vegan, .sem .nonVegan, .shm .nonVegan]

theorem mem_names (n : Name) : n ∈ names := by rcases n with ⟨⟨⟩⟩ | ⟨⟨⟩⟩ <;> decide

/-- The run has ended before it forked, or all its names have been unlinked. -/
def Run.closed (x : Run ι) : Bool :=
  match x.phase with
  | .init _  => false
  | .service => names.all x.unlinked
  | .failed  => true

/-- A run is started only when all earlier ones are closed. -/
def Alone (s : State ρ ι) : Act ρ ι → Prop
  | .start _ => ∀ r, (s.run r).elim true Run.closed = true
  | _ => True

instance [Fintype ρ] (s : State ρ ι) (a : Act ρ ι) : Decidable (Alone s a) := by
  cases a <;> unfold Alone <;> infer_instance

/-- The call that opens the name. -/
def Name.opening : Name → Call
  | .sem t => .sem_open t
  | .shm t => .shm_open t

/-- The run has opened the name. -/
def Run.Holds (x : Run ι) (n : Name) : Prop :=
  match x.phase with
  | .init todo => n.opening ∉ todo
  | .service   => True
  | .failed    => False

/-- The object is as it has been created, but for its length. -/
def Pristine : Name → Object → Prop
  | .sem _, o => o = .sem 1
  | .shm _, o => ∃ n, o = .mem n ⟨0, fun _ => .zeroed⟩

theorem Pristine.created (n : Name) : Pristine n (.created n) := by
  cases n with
  | sem t => rfl
  | shm t => exact ⟨0, rfl⟩

theorem Pristine.truncate {n : Name} {o : Object} (h : Pristine n o) : Pristine n o.truncate := by
  cases n with
  | sem t =>
      cases show o = .sem 1 from h
      rfl
  | shm t =>
      obtain ⟨k, rfl⟩ := show ∃ k, o = .mem k ⟨0, fun _ => .zeroed⟩ from h
      exact ⟨len, rfl⟩

/-- What holds of a run, whoever else is there. -/
structure RunInv (role : ρ → ι → Role) (rand : ρ → ι → Nat → Nat) (r : ρ)
    (objs : NamedObjects Name Object) (x : Run ι) : Prop where
  todo    : ∀ todo, x.phase = .init todo → todo <:+ mainCalls
  idle    : ∀ todo, x.phase = .init todo →
    x.kitchen = SemaphoreKitchen.opening (role r) ∧ x.unlinked = fun _ => false
  made    : ∀ n, x.Holds n → x.id n < objs.next ∧ objs.made (x.id n) = n
  fresh   : ∀ todo, x.phase = .init todo → ∀ n, x.Holds n → Pristine n (objs.object (x.id n))
  gone    : x.phase = .service → x.closed = false → ∀ n, x.unlinked n = true →
    objs.bound n = none
  kitchen : x.phase = .service →
    Reachable (SemaphoreKitchen.step (rand r)) (SemaphoreKitchen.opening (role r)) (x.view objs)

/-- `x` holds nothing that `y` works with. -/
def Apart (x y : Run ι) : Prop := y.phase = .service → ∀ n, x.Holds n → x.id n ≠ y.id n

/-- A name is bound to an object that the current run has opened, or that nobody has used. -/
def BoundInv (s : State ρ ι) : Prop :=
  ∀ n i, s.objs.bound n = some i →
    (∃ r x, s.run r = some x ∧ x.closed = false ∧ x.Holds n ∧ x.id n = i) ∨
    Pristine n (s.objs.object i) ∧
      ∀ r x, s.run r = some x → x.phase = .service → x.id n ≠ i

structure Inv (role : ρ → ι → Role) (rand : ρ → ι → Nat → Nat) (s : State ρ ι) : Prop where
  runs  : ∀ r x, s.run r = some x → RunInv role rand r s.objs x
  apart : ∀ r r' x y, r ≠ r' → s.run r = some x → s.run r' = some y → Apart x y
  one   : ∀ r r' x y, s.run r = some x → s.run r' = some y → x.closed = false →
    y.closed = false → r = r'
  bound : BoundInv s

omit [DecidableEq ρ] [DecidableEq ι] in
theorem view_congr {objs objs' : NamedObjects Name Object} {x : Run ι}
    (h : ∀ n, objs'.object (x.id n) = objs.object (x.id n)) : x.view objs' = x.view objs := by
  have htrays : x.trays objs' = x.trays objs := by
    funext t
    rw [Run.trays, Run.trays, h, h]
  rw [Run.view, Run.view, htrays]

omit [DecidableEq ι] in
theorem Run.holds_all {x : Run ι} (h : x.phase = .service) (n : Name) : x.Holds n := by
  rw [Run.Holds, h]
  trivial

omit [DecidableEq ρ] in
/-- Steps of others that leave its objects and names alone do not matter to a run. -/
theorem RunInv.frame {role : ρ → ι → Role} {rand : ρ → ι → Nat → Nat} {r : ρ}
    {objs objs' : NamedObjects Name Object} {x : Run ι} (h : RunInv role rand r objs x)
    (hnext : objs.next ≤ objs'.next)
    (hmade : ∀ n, x.Holds n → objs'.made (x.id n) = objs.made (x.id n))
    (hobject : ∀ n, x.Holds n → objs'.object (x.id n) = objs.object (x.id n))
    (hbound : x.closed = false → ∀ n, objs.bound n = none → objs'.bound n = none) :
    RunInv role rand r objs' x where
  todo    := h.todo
  idle    := h.idle
  made    := fun n hn =>
    ⟨Nat.lt_of_lt_of_le (h.made n hn).1 hnext, (hmade n hn).trans (h.made n hn).2⟩
  fresh   := fun todo hphase n hn => by
    rw [hobject n hn]
    exact h.fresh todo hphase n hn
  gone    := fun hphase hopen n hn => hbound hopen n (h.gone hphase hopen n hn)
  kitchen := fun hphase => by
    rw [view_congr fun n => hobject n (x.holds_all hphase n)]
    exact h.kitchen hphase

section Steps

variable {role : ρ → ι → Role} {rand : ρ → ι → Nat → Nat} {s s' : State ρ ι} {r : ρ} {x x' : Run ι}
  {objs : NamedObjects Name Object}

/-- **A change of one run.**  What has to be checked when run `r`, as it was, becomes `x'`. -/
theorem Inv.set (h : Inv role rand s) (hx' : RunInv role rand r objs x')
    (hother : ∀ r' y, r' ≠ r → s.run r' = some y → RunInv role rand r' objs y ∧ Apart x' y ∧
      Apart y x' ∧ (x'.closed = false → y.closed = true))
    (hbound : BoundInv (s.set r objs x')) : Inv role rand (s.set r objs x') := by
  have hrun : ∀ {r' y}, (s.set r objs x').run r' = some y →
      r' = r ∧ y = x' ∨ r' ≠ r ∧ s.run r' = some y := by
    intro r' y hy
    by_cases hr : r' = r
    · subst hr
      exact .inl ⟨rfl, Option.some.inj ((Function.update_self ..).symm.trans hy).symm⟩
    · exact .inr ⟨hr, (Function.update_of_ne hr ..).symm.trans hy⟩
  refine ⟨?_, ?_, ?_, hbound⟩
  · intro r' y hy
    rcases hrun hy with ⟨rfl, rfl⟩ | ⟨hr, hy⟩
    · exact hx'
    · exact (hother r' y hr hy).1
  · intro r₁ r₂ y z hne hy hz
    rcases hrun hy with ⟨rfl, rfl⟩ | ⟨hr₁, hy'⟩ <;> rcases hrun hz with ⟨rfl, rfl⟩ | ⟨hr₂, hz'⟩
    · exact absurd rfl hne
    · exact (hother r₂ z hr₂ hz').2.1
    · exact (hother r₁ y hr₁ hy').2.2.1
    · exact h.apart r₁ r₂ y z hne hy' hz'
  · intro r₁ r₂ y z hy hz hyo hzo
    rcases hrun hy with ⟨rfl, rfl⟩ | ⟨hr₁, hy'⟩ <;> rcases hrun hz with ⟨rfl, rfl⟩ | ⟨hr₂, hz'⟩
    · rfl
    · cases hzo.symm.trans ((hother r₂ z hr₂ hz').2.2.2 hyo)
    · cases hyo.symm.trans ((hother r₁ y hr₁ hy').2.2.2 hzo)
    · exact h.one r₁ r₂ y z hy' hz' hyo hzo

omit [DecidableEq ι] in
theorem Run.Holds.cases {n : Name} (h : x.Holds n) :
    x.phase = .service ∨ (∃ todo, x.phase = .init todo) ∧ x.closed = false := by
  unfold Run.Holds at h
  unfold Run.closed
  cases hphase : x.phase with
  | init todo => exact .inr ⟨⟨todo, rfl⟩, rfl⟩
  | service => exact .inl rfl
  | failed => rw [hphase] at h; exact h.elim

omit [DecidableEq ρ] in
/-- Different runs hold different objects. -/
theorem Inv.id_ne (h : Inv role rand s) {r' : ρ} {y : Run ι} (hr : r' ≠ r) (hy : s.run r' = some y)
    (hx : s.run r = some x) {n m : Name} (hn : y.Holds n) (hm : x.Holds m) : y.id n ≠ x.id m := by
  intro he
  have hnm : n = m := by
    rw [← ((h.runs r' y hy).made n hn).2, he, ((h.runs r x hx).made m hm).2]
  subst hnm
  -- at most one of the two has not begun its work
  rcases hm.cases with hserv | ⟨-, hxo⟩
  · exact h.apart r' r y x hr hy hx hserv n hn he
  · rcases hn.cases with hserv | ⟨-, hyo⟩
    · exact h.apart r r' x y hr.symm hx hy hserv n hm he.symm
    · exact hr (h.one r' r y x hy hx hyo hxo)

omit [DecidableEq ρ] in
/-- The other runs, when run `r` changes only what no other run holds. -/
theorem Inv.others (h : Inv role rand s) (hx : s.run r = some x) (hnext : s.objs.next ≤ objs.next)
    (hmade : ∀ i, i < s.objs.next → objs.made i = s.objs.made i)
    (hobject : ∀ i, i < s.objs.next → (∀ n, x.Holds n → i ≠ x.id n) →
      objs.object i = s.objs.object i)
    (hbound : x.closed = true → ∀ n, s.objs.bound n = none → objs.bound n = none)
    {r' : ρ} {y : Run ι} (hr : r' ≠ r) (hy : s.run r' = some y) :
    RunInv role rand r' objs y := by
  have hinv := h.runs r' y hy
  refine hinv.frame hnext (fun n hn => hmade _ (hinv.made n hn).1)
    (fun n hn => hobject _ (hinv.made n hn).1 fun m hm => h.id_ne hr hy hx hn hm) ?_
  intro hyo n hnone
  cases hxo : x.closed with
  | false => exact absurd (h.one r' r y x hy hx hyo hxo) hr
  | true => exact hbound hxo n hnone

omit [DecidableEq ι] in
/-- What nobody used is not used after run `r` has changed, if that does not use it. -/
theorem set_free {n : Name} {i : Nat}
    (hfree : ∀ r' y, s.run r' = some y → y.phase = .service → y.id n ≠ i)
    (hx' : x'.phase = .service → x'.id n ≠ i) :
    ∀ r' y, (s.set r objs x').run r' = some y → y.phase = .service → y.id n ≠ i := by
  intro r' y hy hserv
  by_cases hr : r' = r
  · subst hr
    cases (Function.update_self ..).symm.trans hy
    exact hx' hserv
  · exact hfree r' y ((Function.update_of_ne hr ..).symm.trans hy) hserv

omit [DecidableEq ρ] in
/-- The run that a name's object belongs to, if any, is the open one. -/
theorem Inv.bound_cases (h : Inv role rand s) (hx : s.run r = some x) (hxo : x.closed = false)
    {n : Name} {i : Nat} (hbound : s.objs.bound n = some i) :
    x.Holds n ∧ x.id n = i ∨
      Pristine n (s.objs.object i) ∧ ∀ r y, s.run r = some y → y.phase = .service → y.id n ≠ i := by
  refine (h.bound n i hbound).imp_left ?_
  rintro ⟨r', y, hy, hyo, hn, hid⟩
  cases h.one r' r y x hy hx hyo hxo
  cases hy.symm.trans hx
  exact ⟨hn, hid⟩

/-! ## One step at a time -/

theorem Inv.start (h : Inv role rand s)
    (hall : ∀ r' y, s.run r' = some y → y.closed = true) :
    Inv role rand (s.set r s.objs
      ⟨.init mainCalls, fun _ => 0, SemaphoreKitchen.opening (role r), fun _ => false⟩) := by
  have hholds : ∀ n : Name, n.opening ∈ mainCalls := by rintro (⟨⟨⟩⟩ | ⟨⟨⟩⟩) <;> decide
  refine h.set ⟨?_, fun _ _ => ⟨rfl, rfl⟩, fun n hn => absurd (hholds n) hn,
    fun _ _ n hn => absurd (hholds n) hn, nofun, nofun⟩ ?_ ?_
  · rintro todo ⟨⟩
    exact List.suffix_rfl
  · intro r' y hr hy
    exact ⟨h.runs r' y hy, fun _ n hn => absurd (hholds n) hn, nofun, fun _ => hall r' y hy⟩
  · intro n i hbound
    rcases h.bound n i hbound with ⟨r', y, hy, hyo, -⟩ | ⟨hpristine, hnot⟩
    · cases (hall r' y hy).symm.trans hyo
    · exact .inr ⟨hpristine, set_free hnot nofun⟩

/-- Opening a name. -/
theorem Inv.opens (h : Inv role rand s) (hx : s.run r = some x) {n : Name} {todo : List Call}
    (hphase : x.phase = .init (n.opening :: todo)) {i : Nat}
    (ho : NamedObjects.Opened s.objs objs n (.created n) i) :
    Inv role rand (s.set r objs { x with phase := .init todo, id := Function.update x.id n i }) := by
  have hinv := h.runs r x hx
  have hxo : x.closed = false := by rw [Run.closed, hphase]
  have hsuffix := hinv.todo _ hphase
  have hnodup : (n.opening :: todo).Nodup := hsuffix.sublist.nodup (by decide)
  have hnot : ¬ x.Holds n := by
    rw [Run.Holds, hphase]
    exact fun hn => hn List.mem_cons_self
  have hi : i < objs.next := objs.bound_lt ho.bound
  -- what the other names of the run are
  have hheld : ∀ m, m ≠ n → m.opening ∉ todo → x.Holds m := by
    intro m hm hmem
    rw [Run.Holds, hphase]
    refine fun hmem' => hmem ((List.mem_cons.mp hmem').resolve_left fun he => hm ?_)
    rcases m with ⟨⟩ | ⟨⟩ <;> rcases n with ⟨⟩ | ⟨⟩ <;> cases he <;> rfl
  -- the object is new to everybody
  have hnew : Pristine n (objs.object i) ∧
      ∀ r' y, s.run r' = some y → y.phase = .service → y.id n ≠ i := by
    rcases ho.origin with hbound | ⟨hle, hobject⟩
    · rcases h.bound_cases hx hxo hbound with ⟨hn, -⟩ | ⟨hpristine, hfree⟩
      · exact absurd hn hnot
      · rw [ho.object i (s.objs.bound_lt hbound)]
        exact ⟨hpristine, hfree⟩
    · rw [hobject]
      refine ⟨.created n, fun r' y hy hserv he => ?_⟩
      have := ((h.runs r' y hy).made n (y.holds_all hserv n)).1
      omega
  refine h.set ⟨?_, ?_, ?_, ?_, nofun, nofun⟩ ?_ ?_
  · rintro todo' ⟨⟩
    exact (List.suffix_cons ..).trans hsuffix
  · rintro todo' ⟨⟩
    exact hinv.idle _ hphase
  · intro m hm
    by_cases hmn : m = n
    · subst hmn
      simp only [Function.update_self]
      exact ⟨hi, objs.bound_made ho.bound⟩
    · simp only [Function.update_of_ne hmn]
      obtain ⟨hlt, hmade⟩ := hinv.made m (hheld m hmn hm)
      exact ⟨Nat.lt_of_lt_of_le hlt ho.le, (ho.made _ hlt).trans hmade⟩
  · rintro todo' ⟨⟩ m hm
    by_cases hmn : m = n
    · subst hmn
      simp only [Function.update_self]
      exact hnew.1
    · simp only [Function.update_of_ne hmn]
      rw [ho.object _ (hinv.made m (hheld m hmn hm)).1]
      exact hinv.fresh _ hphase m (hheld m hmn hm)
  · intro r' y hr hy
    refine ⟨h.others hx ho.le ho.made (fun j hj _ => ho.object j hj) ?_ hr hy, ?_, nofun, ?_⟩
    · exact fun hclosed => (by cases hxo.symm.trans hclosed)
    · intro hserv m hm
      by_cases hmn : m = n
      · subst hmn
        simp only [Function.update_self]
        exact (hnew.2 r' y hy hserv).symm
      · simp only [Function.update_of_ne hmn]
        exact h.apart r r' x y hr.symm hx hy hserv m (hheld m hmn hm)
    · intro _
      by_contra hyo
      exact hr (h.one r' r y x hy hx (Bool.eq_false_iff.mpr hyo) hxo)
  · intro m j hbound
    have hset : (s.set r objs
        { x with phase := .init todo, id := Function.update x.id n i }).run r = some _ :=
      Function.update_self ..
    by_cases hmn : m = n
    · subst hmn
      have hij : i = j := Option.some.inj (ho.bound.symm.trans hbound)
      exact .inl ⟨r, _, hset, rfl, (List.nodup_cons.mp hnodup).1, (Function.update_self ..).trans hij⟩
    · rw [show (s.set r objs _).objs.bound m = _ from ho.others m hmn] at hbound
      rcases h.bound_cases hx hxo hbound with ⟨hm, hid⟩ | ⟨hpristine, hfree⟩
      · rw [Run.Holds, hphase] at hm
        exact .inl ⟨r, _, hset, rfl, fun hmem => hm (List.mem_cons_of_mem _ hmem),
          (Function.update_of_ne hmn ..).trans hid⟩
      · refine .inr ⟨?_, set_free hfree nofun⟩
        rw [show (s.set r objs _).objs.object j = _ from ho.object j (s.objs.bound_lt hbound)]
        exact hpristine

/-- A call that opens nothing, on the objects of the run only: `ftruncate` or `mmap`. -/
theorem Inv.calls (h : Inv role rand s) (hx : s.run r = some x) {c : Call} {todo : List Call}
    (hphase : x.phase = .init (c :: todo)) (hc : ∀ n : Name, n.opening ≠ c)
    (hbound : objs.bound = s.objs.bound) (hmade : objs.made = s.objs.made)
    (hnext : objs.next = s.objs.next)
    (hobject : ∀ i, (∀ n, x.Holds n → i ≠ x.id n) → objs.object i = s.objs.object i)
    (hkeep : ∀ n i, Pristine n (s.objs.object i) → Pristine n (objs.object i)) :
    Inv role rand (s.set r objs { x with phase := .init todo }) := by
  have hinv := h.runs r x hx
  have hxo : x.closed = false := by rw [Run.closed, hphase]
  have hheld : ∀ n : Name, n.opening ∉ todo ↔ x.Holds n := by
    intro n
    rw [Run.Holds, hphase]
    simp [hc n]
  refine h.set ⟨?_, ?_, ?_, ?_, nofun, nofun⟩ ?_ ?_
  · rintro todo' ⟨⟩
    exact (List.suffix_cons ..).trans (hinv.todo _ hphase)
  · rintro todo' ⟨⟩
    exact hinv.idle _ hphase
  · intro n hn
    rw [hnext, hmade]
    exact hinv.made n ((hheld n).mp hn)
  · rintro todo' ⟨⟩ n hn
    exact hkeep n _ (hinv.fresh _ hphase n ((hheld n).mp hn))
  · intro r' y hr hy
    refine ⟨h.others hx (Nat.le_of_eq hnext.symm) (fun i _ => by rw [hmade])
      (fun i _ hi => hobject i hi) (fun _ n hn => by rw [hbound, hn]) hr hy, ?_, nofun, ?_⟩
    · exact fun hserv n hn => h.apart r r' x y hr.symm hx hy hserv n ((hheld n).mp hn)
    · intro _
      by_contra hyo
      exact hr (h.one r' r y x hy hx (Bool.eq_false_iff.mpr hyo) hxo)
  · intro n i hb
    rw [show (s.set r objs _).objs.bound n = _ from congrFun hbound n] at hb
    rcases h.bound_cases hx hxo hb with ⟨hn, hid⟩ | ⟨hpristine, hfree⟩
    · exact .inl ⟨r, _, Function.update_self .., rfl, (hheld n).mpr hn, hid⟩
    · exact .inr ⟨hkeep n i hpristine, set_free hfree nofun⟩

/-- A call fails, and the program ends. -/
theorem Inv.fails (h : Inv role rand s) (hx : s.run r = some x) {todo : List Call}
    (hphase : x.phase = .init todo) : Inv role rand (s.set r s.objs { x with phase := .failed }) := by
  have hxo : x.closed = false := by rw [Run.closed, hphase]
  refine h.set ⟨nofun, nofun, fun _ hn => hn.elim, nofun, nofun, nofun⟩ ?_ ?_
  · exact fun r' y _ hy => ⟨h.runs r' y hy, fun _ _ hn => hn.elim, nofun, nofun⟩
  · intro n i hb
    rcases h.bound_cases hx hxo hb with ⟨hn, hid⟩ | ⟨hpristine, hfree⟩
    · refine .inr ⟨hid ▸ (h.runs r x hx).fresh _ hphase n hn, set_free ?_ nofun⟩
      intro r' y hy hserv he
      by_cases hr : r' = r
      · subst hr
        cases hy.symm.trans hx
        cases hserv.symm.trans hphase
      · exact h.apart r r' x y (Ne.symm hr) hx hy hserv n hn (hid.trans he.symm)
    · exact .inr ⟨hpristine, set_free hfree nofun⟩

/-- `main` is through with its calls and forks. -/
theorem Inv.begins (h : Inv role rand s) (hx : s.run r = some x) (hphase : x.phase = .init []) :
    Inv role rand (s.set r s.objs { x with phase := .service }) := by
  have hinv := h.runs r x hx
  have hxo : x.closed = false := by rw [Run.closed, hphase]
  obtain ⟨hkitchen, hunlinked⟩ := hinv.idle _ hphase
  have hall : ∀ n, x.Holds n := by
    intro n
    rw [Run.Holds, hphase]
    exact List.not_mem_nil
  have hpristine := fun n => hinv.fresh _ hphase n (hall n)
  have hview : ({ x with phase := .service } : Run ι).view s.objs
      = SemaphoreKitchen.opening (role r) := by
    have htrays : x.trays s.objs = (SemaphoreKitchen.opening (role r)).food_shm := by
      funext t
      obtain ⟨k, hmem⟩ := hpristine (.shm t)
      rw [Run.trays, hmem, show s.objs.object (x.id (.sem t)) = .sem 1 from hpristine (.sem t)]
      rfl
    show ({ x.kitchen with food_shm := x.trays s.objs } : Kitchen ι) = _
    rw [hkitchen, htrays]
  refine h.set ⟨nofun, nofun, fun n _ => hinv.made n (hall n), nofun, ?_, ?_⟩ ?_ ?_
  · intro _ _ n hn
    simp only [hunlinked] at hn
    cases hn
  · intro _
    rw [hview]
    exact .init
  · intro r' y hr hy
    refine ⟨h.runs r' y hy, fun hserv n _ => h.apart r r' x y hr.symm hx hy hserv n (hall n), ?_, ?_⟩
    · exact fun _ n hn => h.id_ne hr hy hx hn (hall n)
    · intro _
      by_contra hyo
      exact hr (h.one r' r y x hy hx (Bool.eq_false_iff.mpr hyo) hxo)
  · intro n i hb
    have hopen : ({ x with phase := .service } : Run ι).closed = false := by
      simp [Run.closed, hunlinked, names]
    rcases h.bound_cases hx hxo hb with ⟨-, hid⟩ | ⟨hp, hfree⟩
    · exact .inl ⟨r, _, Function.update_self .., hopen, trivial, hid⟩
    · by_cases hid : x.id n = i
      · exact .inl ⟨r, _, Function.update_self .., hopen, trivial, hid⟩
      · exact .inr ⟨hp, set_free hfree fun _ => hid⟩

omit [DecidableEq ρ] [DecidableEq ι] in
/-- The trays are those that have been written. -/
theorem trays_writeTrays (mem : Trays) (hid : ∀ n m : Name, n ≠ m → x.id n ≠ x.id m) :
    x.trays (writeTrays s.objs x.id mem) = mem := by
  funext t
  cases t <;>
    simp [Run.trays, writeTrays, NamedObjects.object_write_of_ne, hid, Object.value, Object.buffer]

omit [DecidableEq ρ] [DecidableEq ι] in
theorem object_writeTrays (mem : Trays) {i : Nat} (hi : ∀ n, i ≠ x.id n) :
    (writeTrays s.objs x.id mem).object i = s.objs.object i := by
  simp [writeTrays, NamedObjects.object_write_of_ne, hi]

/-- A process of the run does a step. -/
theorem Inv.serves (h : Inv role rand s) (hx : s.run r = some x) (hphase : x.phase = .service)
    {a : SemaphoreKitchen.Act ι} {k : Kitchen ι}
    (hk : SemaphoreKitchen.step (rand r) (x.view s.objs) a = some k) :
    Inv role rand (s.set r (writeTrays s.objs x.id k.food_shm) { x with kitchen := k }) := by
  have hinv := h.runs r x hx
  have hall := x.holds_all hphase
  have hid : ∀ n m : Name, n ≠ m → x.id n ≠ x.id m := by
    intro n m hne he
    refine hne ?_
    rw [← (hinv.made n (hall n)).2, he, (hinv.made m (hall m)).2]
  have hview : ({ x with kitchen := k } : Run ι).view (writeTrays s.objs x.id k.food_shm) = k := by
    show ({ k with food_shm := x.trays (writeTrays s.objs x.id k.food_shm) } : Kitchen ι) = k
    rw [trays_writeTrays k.food_shm hid]
  refine h.set ⟨?_, ?_, fun n _ => hinv.made n (hall n), ?_, fun _ => hinv.gone hphase, ?_⟩ ?_ ?_
  · exact fun todo hinit => (by cases hphase.symm.trans hinit)
  · exact fun todo hinit => (by cases hphase.symm.trans hinit)
  · exact fun todo hinit => (by cases hphase.symm.trans hinit)
  · intro _
    rw [hview]
    exact .next (hinv.kitchen hphase) trivial hk
  · intro r' y hr hy
    refine ⟨?_, fun hserv n _ => h.apart r r' x y hr.symm hx hy hserv n (hall n),
      fun _ n hn => h.apart r' r y x hr hy hx hphase n hn, ?_⟩
    · have hle : s.objs.next ≤ (writeTrays s.objs x.id k.food_shm).next := Nat.le_refl _
      exact h.others hx hle (fun _ _ => rfl)
        (fun i _ hi => object_writeTrays _ fun n => hi n (hall n)) (fun _ _ hn => hn) hr hy
    · intro hxo
      by_contra hyo
      exact hr (h.one r' r y x hy hx (Bool.eq_false_iff.mpr hyo) hxo)
  · intro n i hb
    rcases h.bound n i hb with ⟨r', y, hy, hyo, hn, hid⟩ | ⟨hpristine, hfree⟩
    · by_cases hr : r' = r
      · subst hr
        cases hy.symm.trans hx
        exact .inl ⟨r', _, Function.update_self .., hyo, hn, hid⟩
      · exact .inl ⟨r', y, (Function.update_of_ne hr ..).trans hy, hyo, hn, hid⟩
    · refine .inr ⟨?_, set_free hfree fun _ => hfree r x hx hphase⟩
      rw [show (s.set r (writeTrays s.objs x.id k.food_shm) _).objs.object i = _ from
        object_writeTrays k.food_shm fun m he => ?_]
      · exact hpristine
      · have hnm : m = n := by
          rw [← (hinv.made m (hall m)).2, ← he]
          exact s.objs.bound_made hb
        subst hnm
        exact hfree r x hx hphase he.symm

/-- A process of the run unlinks a name, in `cleanup`. -/
theorem Inv.unlinks (h : Inv role rand s) (hx : s.run r = some x) (n : Name)
    (hsame : x'.phase = x.phase ∧ x'.id = x.id ∧ x'.kitchen = x.kitchen)
    (hunlinked : ∀ m, x'.unlinked m = true → x.phase = .service → m = n ∨ x.unlinked m = true)
    (hinit : x.phase ≠ .service → x'.unlinked = x.unlinked)
    (hclosed : x.closed = true → x'.closed = true) :
    Inv role rand (s.set r (s.objs.unlink n) x') := by
  obtain ⟨hphase, hid, hkitchen⟩ := hsame
  have hinv := h.runs r x hx
  have hholds : ∀ m, x'.Holds m ↔ x.Holds m := by
    intro m
    rw [Run.Holds, Run.Holds, hphase]
  have hopen : x'.closed = false → x.closed = false := by
    intro hx'o
    cases hxo : x.closed with
    | false => rfl
    | true => exact (hclosed hxo).symm.trans hx'o
  have hnone : ∀ m, s.objs.bound m = none → (s.objs.unlink n).bound m = none := by
    intro m hm
    by_contra hne
    obtain ⟨i, hi⟩ := Option.ne_none_iff_exists'.mp hne
    cases hm.symm.trans (s.objs.bound_of_unlink n hi)
  refine h.set ⟨?_, ?_, ?_, ?_, ?_, ?_⟩ ?_ ?_
  · exact fun todo hinit => hinv.todo todo (hphase ▸ hinit)
  · intro todo htodo
    have htodo := hphase ▸ htodo
    obtain ⟨hk, hu⟩ := hinv.idle todo htodo
    exact ⟨hkitchen.trans hk, (hinit fun hserv => (by cases hserv.symm.trans htodo)).trans hu⟩
  · intro m hm
    rw [hid]
    exact hinv.made m ((hholds m).mp hm)
  · intro todo htodo m hm
    rw [hid]
    exact hinv.fresh todo (hphase ▸ htodo) m ((hholds m).mp hm)
  · intro hserv hx'o m hm
    have hserv := hphase ▸ hserv
    rcases hunlinked m hm hserv with rfl | hm
    · exact s.objs.bound_unlink_self m
    · exact hnone m (hinv.gone hserv (hopen hx'o) m hm)
  · intro hserv
    have hview : x'.view (s.objs.unlink n) = x.view s.objs := by
      simp only [Run.view, hkitchen]
      rw [show x'.trays (s.objs.unlink n) = x.trays s.objs by
        funext t
        rw [Run.trays, Run.trays, hid]
        rfl]
    rw [hview]
    exact hinv.kitchen (hphase ▸ hserv)
  · intro r' y hr hy
    refine ⟨?_, ?_, ?_, ?_⟩
    · have hle : s.objs.next ≤ (s.objs.unlink n).next := Nat.le_refl _
      exact h.others hx hle (fun _ _ => rfl) (fun _ _ _ => rfl) (fun _ => hnone) hr hy
    · intro hserv m hm
      rw [hid]
      exact h.apart r r' x y hr.symm hx hy hserv m ((hholds m).mp hm)
    · intro hserv m hm
      rw [hid]
      exact h.apart r' r y x hr hy hx (hphase ▸ hserv) m hm
    · intro hx'o
      by_contra hyo
      exact hr (h.one r' r y x hy hx (Bool.eq_false_iff.mpr hyo) (hopen hx'o))
  · intro m i hb
    have hb' : s.objs.bound m = some i := s.objs.bound_of_unlink n hb
    rcases h.bound m i hb' with ⟨r', y, hy, hyo, hm, hid'⟩ | ⟨hpristine, hfree⟩
    · by_cases hr : r' = r
      · subst hr
        cases hy.symm.trans hx
        cases hx'o : x'.closed with
        | false =>
            exact .inl ⟨r', _, Function.update_self .., hx'o, (hholds m).mpr hm, hid ▸ hid'⟩
        -- all names have been unlinked, and `m` is one of them
        | true =>
            have hserv : x.phase = .service := by
              rcases Run.Holds.cases hm with hserv | ⟨⟨todo, htodo⟩, -⟩
              · exact hserv
              · rw [Run.closed, hphase, htodo] at hx'o
                cases hx'o
            rw [Run.closed, hphase, hserv] at hx'o
            rcases hunlinked m (List.all_eq_true.mp hx'o m (mem_names m)) hserv with rfl | hgone
            · cases (s.objs.bound_unlink_self m).symm.trans hb
            · cases (hinv.gone hserv hyo m hgone).symm.trans hb'
      · exact .inl ⟨r', y, (Function.update_of_ne hr ..).trans hy, hyo, hm, hid'⟩
    · exact .inr ⟨hpristine, set_free hfree fun hserv => hid ▸ hfree r x hx (hphase ▸ hserv)⟩

end Steps

/-! ## Any sequence of runs -/

variable {role : ρ → ι → Role} {rand : ρ → ι → Nat → Nat} {s s' : State ρ ι}

/-- `shmInit` opens the memory before it sets the length. -/
theorem not_mem_of_ftruncate {t : ShmIdx} {todo : List Call}
    (h : .ftruncate t :: todo <:+ mainCalls) : Name.opening (.shm t) ∉ .ftruncate t :: todo := by
  have htails := (List.mem_tails _ _).mpr h
  cases t with
  | vegan =>
      simp [mainCalls, shmInit] at htails
      rw [htails]
      decide
  | nonVegan =>
      simp [mainCalls, shmInit] at htails
      rw [htails]
      decide

theorem inv_step {a : Act ρ ι} (h : Inv role rand s) (hok : Alone s a)
    (hs : step role rand s a = some s') : Inv role rand s' := by
  cases a with
  | start r =>
      rw [step] at hs
      split at hs <;> cases hs
      refine h.start fun r' y hy => ?_
      have hclosed := hok r'
      rwa [hy] at hclosed
  | init r ok =>
      obtain ⟨x, hx, hs⟩ := Option.bind_eq_some_iff.mp hs
      split at hs
      next hphase =>
        cases hs
        exact h.begins hx hphase
      next c todo hphase =>
        split at hs <;> cases hs
        · cases c with
          | sem_open t => exact h.opens (n := .sem t) hx hphase (s.objs.opened ..)
          | shm_open t => exact h.opens (n := .shm t) hx hphase (s.objs.opened ..)
          | ftruncate t =>
              have hopened : x.Holds (.shm t) := by
                rw [Run.Holds, hphase]
                exact not_mem_of_ftruncate ((h.runs r x hx).todo _ hphase)
              refine h.calls hx hphase (by rintro ⟨⟩ <;> exact fun h => (by cases h)) rfl rfl rfl ?_ ?_
              · exact fun i hi => NamedObjects.object_write_of_ne _ _ (hi _ hopened)
              · intro n i hp
                by_cases hi : i = x.id (.shm t)
                · subst hi
                  rw [Call.run, NamedObjects.object_write_self]
                  exact hp.truncate
                · rw [Call.run, NamedObjects.object_write_of_ne _ _ hi]
                  exact hp
          | mmap t =>
              exact h.calls hx hphase (by rintro ⟨⟩ <;> exact fun h => (by cases h)) rfl rfl rfl
                (fun _ _ => rfl) fun _ _ hp => hp
        · exact h.fails hx hphase
      next => cases hs
      next => cases hs
  | serve r a =>
      obtain ⟨x, hx, hs⟩ := Option.bind_eq_some_iff.mp hs
      split at hs
      next hphase =>
        obtain ⟨k, hk, rfl⟩ := Option.map_eq_some_iff.mp hs
        exact h.serves hx hphase hk
      next => cases hs
      next => cases hs
  | unlink r n =>
      obtain ⟨x, hx, rfl⟩ := Option.map_eq_some_iff.mp hs
      split
      next hphase =>
        refine h.unlinks hx n ⟨rfl, rfl, rfl⟩ ?_ (fun hne => absurd hphase hne) ?_
        · intro m hm _
          by_cases hmn : m = n
          · exact .inl hmn
          · exact .inr ((Function.update_of_ne hmn ..).symm.trans hm)
        · rw [Run.closed, Run.closed, hphase]
          simp only [List.all_eq_true]
          intro hall m hm
          by_cases hmn : m = n
          · subst hmn
            exact Function.update_self ..
          · rw [Function.update_of_ne hmn]
            exact hall m hm
      next => exact h.unlinks hx n ⟨rfl, rfl, rfl⟩ (fun _ hm _ => .inr hm) (fun _ => rfl) id
      next => exact h.unlinks hx n ⟨rfl, rfl, rfl⟩ (fun _ hm _ => .inr hm) (fun _ => rfl) id

/-- **EVERY RUN HAS ITS OWN TRAYS.**  In any sequence of runs, each started when the names of the
    last one have been unlinked or it has ended before forking: the processes of a run do what
    they would do on freshly created trays, in the kitchen alone, whatever the processes of
    other runs do; and no object belongs to two runs whose children are at work. -/
theorem runs_isolated (h : Reach (step role rand) Alone opening s) {r : ρ} {x : Run ι}
    (hx : s.run r = some x) (hserv : x.phase = .service) :
    Reachable (SemaphoreKitchen.step (rand r)) (SemaphoreKitchen.opening (role r))
      (x.view s.objs) ∧
    ∀ r' y, r' ≠ r → s.run r' = some y → y.phase = .service → ∀ n m, y.id n ≠ x.id m := by
  have hinit : Inv role rand (opening : State ρ ι) := ⟨nofun, nofun, nofun, nofun⟩
  have hinv : Inv role rand s := h.invariant hinit fun _ _ _ hi hok hs => inv_step hi hok hs
  refine ⟨(hinv.runs r x hx).kitchen hserv, ?_⟩
  exact fun r' y hr hy hserv' n m =>
    hinv.id_ne hr hy hx (y.holds_all hserv' n) (x.holds_all hserv m)

/-- A run up to its service. -/
def beginning (r : Bool) : List (Act Bool Unit) := .start r :: List.replicate 9 (.init r true)

/-- A chef takes the semaphore and is killed. -/
def killed (r : Bool) : List (Act Bool Unit) := List.replicate 2 (.serve r ⟨(), true, 0⟩)

def Phase.isService : Phase → Bool
  | .service => true
  | _        => false

/-- A second run, after one whose chef was killed with the semaphore in its hands. -/
theorem runs_isolated_second : ∃ (s : State Bool Unit) (x : Run Unit),
    Reach (step (fun _ _ => .chefDonatello) fun _ _ _ => 0) Alone opening s ∧
    s.run true = some x ∧ x.phase = .service ∧
    Reachable (SemaphoreKitchen.step fun _ _ => 0)
      (SemaphoreKitchen.opening fun _ => .chefDonatello) (x.view s.objs) := by
  obtain ⟨s, hs, hf⟩ : ∃ s, Reach (step (fun _ _ => .chefDonatello) fun _ _ _ => 0) Alone opening s ∧
      (s.run true).map (fun x => x.phase.isService) = some true :=
    reach_of_runWhen_map _ _ _ (beginning false ++ killed false ++ names.map (.unlink false)
      ++ beginning true) _ (by decide +kernel)
  obtain ⟨x, hx, hserv⟩ := Option.map_eq_some_iff.mp hf
  have hservice : x.phase = .service := by
    cases hphase : x.phase with
    | service => rfl
    | _ =>
        rw [hphase] at hserv
        cases hserv
  exact ⟨s, x, hs, hx, hservice, (runs_isolated hs hx hservice).1⟩

/-- When the first run has not unlinked its names, the second one finds the semaphore taken. -/
example : (run (step (fun _ _ => .chefDonatello) fun _ _ _ => 0) (opening : State Bool Unit)
    (beginning false ++ killed false ++ beginning true)).map
      (fun s => (s.run true).map fun x => (x.trays s.objs .nonVegan).sem) = some (some 0) := by
  decide +kernel

end RestaurantTrays
