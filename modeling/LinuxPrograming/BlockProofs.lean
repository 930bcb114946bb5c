import LinuxPrograming.TransitionProofs
import LinuxPrograming.ByteStreamProofs

/-!
# Blocks of writes under a lock

Threads write to one output, a piece at a time, and any of them may be the next to go on.  A thread
makes a sequence of calls, and each call is a block: it takes the lock, writes its pieces and gives
the lock back.

* **`Whole`** — at any time the output is made of whole blocks, in the order in which they got the
  lock, and of the pieces that the holder of the lock has written of its block.
* **`whole_reach`** — that holds in every run, and each thread's blocks stand in its own order.
* **`completes`** — every run can be completed, and then all blocks are there.
-/

namespace Block

open Transition

inductive Op (β : Type) where
  | lock
  | write (b : β)
  | unlock
deriving DecidableEq

/-- The rest of each thread's program, the holder of the lock, and what has been written. -/
structure State (ι β : Type) where
  rest   : ι → List (Op β)
  holder : Option ι
  output : List β

variable {ι β γ : Type} [DecidableEq ι]

/-- The next operation of a thread; who wants the lock waits for it. -/
def step (s : State ι β) (i : ι) : Option (State ι β) :=
  match s.rest i with
  | []             => none
  | .lock :: ops   =>
      if s.holder = none
      then some { s with rest := Function.update s.rest i ops, holder := some i } else none
  | .write b :: ops =>
      some { s with rest := Function.update s.rest i ops, output := s.output ++ [b] }
  | .unlock :: ops => some { s with rest := Function.update s.rest i ops, holder := none }

/-- A call that writes `bs` under the lock. -/
def block (bs : List β) : List (Op β) := .lock :: (bs.map .write ++ [.unlock])

/-- The calls `cs`, one after the other; `body c` is what `c` writes. -/
def program (body : γ → List β) (cs : List γ) : List (Op β) := cs.flatMap fun c => block (body c)

def opening (body : γ → List β) (calls : ι → List γ) : State ι β :=
  ⟨fun i => program body (calls i), none, []⟩

/-- The calls of thread `i` among those that are through. -/
def own (i : ι) (done : List (ι × γ)) : List γ := (done.filter fun d => d.1 = i).map Prod.snd

theorem own_append_self (i : ι) (done : List (ι × γ)) (c : γ) :
    own i (done ++ [(i, c)]) = own i done ++ [c] := by
  simp [own]

theorem own_append_of_ne {i j : ι} (h : j ≠ i) (done : List (ι × γ)) (c : γ) :
    own i (done ++ [(j, c)]) = own i done := by
  simp [own, h]

/-! ## The output is made of whole blocks -/

/-- `done` are the calls that are through, in the order in which they got the lock; `part` is what
    the holder has written of its block. -/
structure Whole (body : γ → List β) (calls : ι → List γ) (s : State ι β) (done : List (ι × γ))
    (part : List β) : Prop where
  output  : s.output = done.flatMap (fun d => body d.2) ++ part
  outside : ∀ i, s.holder ≠ some i →
    ∃ todo, calls i = own i done ++ todo ∧ s.rest i = program body todo
  inside  : ∀ i, s.holder = some i →
    ∃ c todo togo, calls i = own i done ++ c :: todo ∧ body c = part ++ togo ∧
      s.rest i = togo.map .write ++ .unlock :: program body todo
  free    : s.holder = none → part = []

variable {body : γ → List β} {calls : ι → List γ} {s s' : State ι β} {done : List (ι × γ)}
  {part : List β}

theorem Whole.opening : Whole body calls (opening body calls) [] [] where
  output  := rfl
  outside := fun i _ => ⟨calls i, rfl, rfl⟩
  inside  := fun _ h => nomatch h
  free    := fun _ => rfl

/-- A step of the holder writes the next piece or gives the lock back. -/
theorem Whole.step_inside (h : Whole body calls s done part) {i : ι} (hi : s.holder = some i)
    (hs : step s i = some s') : ∃ done' part', Whole body calls s' done' part' := by
  obtain ⟨c, todo, togo, hcalls, hbody, hrest⟩ := h.inside i hi
  have hother : ∀ j, j ≠ i → ∃ todo, calls j = own j done ++ todo ∧ s.rest j = program body todo :=
    fun j hj => h.outside j fun he => hj (Option.some.inj (he.symm.trans hi))
  cases togo with
  | nil =>
      rw [step, hrest] at hs
      cases hs
      refine ⟨done ++ [(i, c)], [], ?_, ?_, ?_, fun _ => rfl⟩
      · rw [List.append_nil] at hbody ⊢
        rw [List.flatMap_append, List.flatMap_singleton, hbody]
        exact h.output
      · intro j _
        by_cases hj : j = i
        · subst hj
          refine ⟨todo, ?_, Function.update_self ..⟩
          rw [own_append_self, hcalls, List.append_assoc]
          rfl
        · obtain ⟨todo, hcalls, hrest⟩ := hother j hj
          refine ⟨todo, ?_, (Function.update_of_ne hj ..).trans hrest⟩
          rw [own_append_of_ne (Ne.symm hj), hcalls]
      · exact fun j hj => nomatch hj
  | cons b togo =>
      rw [step, hrest] at hs
      cases hs
      refine ⟨done, part ++ [b], ?_, ?_, ?_, fun hn => nomatch hi.symm.trans hn⟩
      · rw [← List.append_assoc, ← h.output]
      · intro j hj
        have hne : j ≠ i := fun he => hj (he ▸ hi)
        obtain ⟨todo, hcalls, hrest⟩ := hother j hne
        exact ⟨todo, hcalls, (Function.update_of_ne hne ..).trans hrest⟩
      · intro j hj
        cases Option.some.inj (hi.symm.trans hj)
        refine ⟨c, todo, togo, hcalls, ?_, Function.update_self ..⟩
        rw [hbody, List.append_assoc]
        rfl

/-- A step of another thread takes the lock. -/
theorem Whole.step_outside (h : Whole body calls s done part) {i : ι} (hi : s.holder ≠ some i)
    (hs : step s i = some s') : Whole body calls s' done part ∧ s'.holder = some i := by
  obtain ⟨todo, hcalls, hrest⟩ := h.outside i hi
  cases todo with
  | nil =>
      rw [step, hrest] at hs
      cases hs
  | cons c todo =>
      rw [step, hrest, program, List.flatMap_cons, block, List.cons_append] at hs
      simp only at hs
      by_cases hfree : s.holder = none
      · rw [if_pos hfree] at hs
        cases hs
        have hpart : part = [] := h.free hfree
        refine ⟨⟨h.output, ?_, ?_, fun hn => nomatch hn⟩, rfl⟩
        · intro j hj
          have hne : j ≠ i := fun he => hj (congrArg some he.symm)
          obtain ⟨todo, hcalls, hrest⟩ := h.outside j (by rw [hfree]; exact nofun)
          exact ⟨todo, hcalls, (Function.update_of_ne hne ..).trans hrest⟩
        · intro j hj
          cases Option.some.inj hj
          refine ⟨c, todo, body c, hcalls, by rw [hpart, List.nil_append], ?_⟩
          refine (Function.update_self ..).trans ?_
          rw [List.append_assoc]
          rfl
      · rw [if_neg hfree] at hs
        cases hs

theorem Whole.step (h : Whole body calls s done part) {i : ι} (hs : step s i = some s') :
    ∃ done' part', Whole body calls s' done' part' := by
  by_cases hi : s.holder = some i
  · exact h.step_inside hi hs
  · exact ⟨done, part, (h.step_outside hi hs).1⟩

/-- **Whole blocks** in every run. -/
theorem whole_reach (h : Reachable step (Block.opening body calls) s) :
    ∃ done part, Whole body calls s done part := by
  induction h with
  | init => exact ⟨[], [], Whole.opening⟩
  | next _ _ hs ih =>
      obtain ⟨done, part, hw⟩ := ih
      exact hw.step hs

/-- Each thread's calls come through in its own order. -/
theorem Whole.own_prefix (h : Whole body calls s done part) (i : ι) : own i done <+: calls i := by
  by_cases hi : s.holder = some i
  · obtain ⟨c, todo, -, hcalls, -⟩ := h.inside i hi
    exact ⟨c :: todo, hcalls.symm⟩
  · obtain ⟨todo, hcalls, -⟩ := h.outside i hi
    exact ⟨todo, hcalls.symm⟩

/-- What stands behind the whole blocks is the beginning of the holder's next block. -/
theorem Whole.part_prefix (h : Whole body calls s done part) :
    part = [] ∨ ∃ i c, s.holder = some i ∧ own i done ++ [c] <+: calls i ∧ part <+: body c := by
  cases hholder : s.holder with
  | none => exact .inl (h.free hholder)
  | some i =>
      obtain ⟨c, todo, togo, hcalls, hbody, -⟩ := h.inside i hholder
      refine .inr ⟨i, c, rfl, ⟨todo, ?_⟩, ⟨togo, hbody.symm⟩⟩
      rw [hcalls, List.append_assoc]
      rfl

/-- Where nobody can go on, every call is through. -/
theorem Whole.of_stuck (h : Whole body calls s done part)
    (hstuck : Stuck Block.step (fun _ _ => True) s) :
    part = [] ∧ ∀ i, own i done = calls i := by
  have hfree : s.holder = none := by
    by_contra hn
    obtain ⟨i, hi⟩ := Option.ne_none_iff_exists'.mp hn
    obtain ⟨c, todo, togo, -, -, hrest⟩ := h.inside i hi
    have hi' := hstuck i trivial
    cases togo <;> rw [Block.step, hrest] at hi' <;> cases hi'
  refine ⟨h.free hfree, ?_⟩
  intro i
  obtain ⟨todo, hcalls, hrest⟩ := h.outside i (by rw [hfree]; exact nofun)
  cases todo with
  | nil => rw [hcalls, List.append_nil]
  | cons c todo =>
      have hi' := hstuck i trivial
      rw [Block.step, hrest, program, List.flatMap_cons, block, List.cons_append] at hi'
      simp only [hfree, if_true] at hi'
      cases hi'

/-- A step takes one operation off. -/
theorem step_rest {i : ι} (hs : Block.step s i = some s') :
    ∃ op, s.rest i = op :: s'.rest i ∧ ∀ j, j ≠ i → s'.rest j = s.rest j := by
  rw [Block.step] at hs
  cases hrest : s.rest i with
  | nil =>
      rw [hrest] at hs
      cases hs
  | cons op ops =>
      rw [hrest] at hs
      have hself : s'.rest = Function.update s.rest i ops := by
        cases op with
        | lock =>
            simp only at hs
            split at hs
            · cases hs
              rfl
            · cases hs
        | write b =>
            cases hs
            rfl
        | unlock =>
            cases hs
            rfl
      rw [hself]
      exact ⟨op, by rw [Function.update_self], fun j hj => Function.update_of_ne hj ..⟩

/-- **Every run can be completed**, and then each call's block is there. -/
theorem completes [Fintype ι] (h : Reachable Block.step (Block.opening body calls) s) :
    ∃ s' done, Reachable Block.step s s' ∧ s'.output = done.flatMap (fun d => body d.2) ∧
      ∀ i, own i done = calls i := by
  obtain ⟨s', hs', hstuck⟩ : ∃ s', Reachable Block.step s s' ∧
      Stuck Block.step (fun _ _ => True) s' := by
    refine Reach.exhausts (fun s => ∃ done part, Whole body calls s done part)
      (fun s => Finset.univ.sum fun i => (s.rest i).length) ?_ ?_ (whole_reach h)
    · intro s i s' hw _ hs
      obtain ⟨done, part, hw⟩ := hw
      exact hw.step hs
    -- one operation less is left
    · intro s i s' _ _ hs
      obtain ⟨op, hrest, hother⟩ := step_rest hs
      have hsum := sum_replace (f := fun j => (s'.rest j).length) (g := fun j => (s.rest j).length)
        i fun j hj => by rw [hother j hj]
      simp only [hrest, List.length_cons] at hsum
      omega
  obtain ⟨done, part, hw⟩ := whole_reach (Reach.trans h hs')
  obtain ⟨hpart, hall⟩ := hw.of_stuck hstuck
  exact ⟨s', done, hs', by rw [hw.output, hpart, List.append_nil], hall⟩

end Block
