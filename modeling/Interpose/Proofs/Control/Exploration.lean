import Interpose.Proofs.Control.Reach
import Mathlib.Logic.Relation

/-!
What an exploration of stack depths computes, in whatever order it takes the states still to do. An
exploration never gets stuck before its end and every one of them ends. The depths it records are
those of the reachable states, and it fails only with a violation that control really comes to; so
whether it succeeds, and with which depths, is the same in every order.
-/

set_option autoImplicit false
set_option relaxedAutoImplicit false

namespace Interpose

/-- An exploration under way: the states still to do, in any order, and the depths recorded. -/
structure Exploration where
  work : List State
  depths : List (Option Nat)

/-- The entry is the first state to do, if the body has one. -/
def Exploration.start (b : Body) : Exploration :=
  ⟨if b.code.isEmpty then [] else [(0, 0)], b.code.map fun _ => none⟩

namespace Body

/-- One state of the work is taken, no matter which one. It is dropped where its depth is recorded
already; otherwise its depth is recorded, and the states it leads to join the work. -/
inductive Takes (b : Body) : Exploration → Exploration → Prop
  | known {x : Exploration} {i d : Nat} {rest : List State} :
      x.work.Perm ((i, d) :: rest) → x.depths[i]? = some (some d) → b.Takes x ⟨rest, x.depths⟩
  | discover {x : Exploration} {i d : Nat} {rest states next : List State} {insn : Instruction} :
      x.work.Perm ((i, d) :: rest) → x.depths[i]? = some none → b.code[i]? = some insn →
      b.successorsOf insn i d = .ok states → next.Perm (states ++ rest) →
      b.Takes x ⟨next, x.depths.set i (some d)⟩

/-- How an exploration may end: all work is done, or some state of the work disagrees with the depth
recorded, or it leads nowhere. -/
inductive Ends (b : Body) : Exploration → Except StackError (List (Option Nat)) → Prop
  | done {depths : List (Option Nat)} : b.Ends ⟨[], depths⟩ (.ok depths)
  | clash {x : Exploration} {i d known : Nat} : (i, d) ∈ x.work →
      x.depths[i]? = some (some known) → known ≠ d → b.Ends x (.error (.mismatch i known d))
  | fails {x : Exploration} {i d : Nat} {insn : Instruction} {e : StackError} : (i, d) ∈ x.work →
      x.depths[i]? = some none → b.code[i]? = some insn → b.successorsOf insn i d = .error e →
      b.Ends x (.error e)

/-- Control really comes to a violation, at the index and with the numbers that it names. -/
inductive Violates (b : Body) : StackError → Prop
  | underflow {i d : Nat} {insn : Instruction} : b.Reaches (i, d) → b.code[i]? = some insn →
      d < insn.stackEffect.pops → b.Violates (.underflow i insn.text)
  | mismatch {i d e : Nat} : b.Reaches (i, d) → b.Reaches (i, e) → d ≠ e →
      b.Violates (.mismatch i d e)
  | badReturn {i d : Nat} {insn : Instruction} : b.Reaches (i, d) → b.code[i]? = some insn →
      insn.opcode = .ret → d ≠ b.returns.toNat → b.Violates (.badReturn i d b.returns.toNat)
  | fallsOffEnd {i d : Nat} {insn : Instruction} : b.Reaches (i, d) → b.code[i]? = some insn →
      insn.opcode.fallsThrough = true → b.code.length ≤ i + 1 → b.Violates (.fallsOffEnd i)
  | unboundLabel {i d : Nat} {insn : Instruction} {l : Label} : b.Reaches (i, d) →
      b.code[i]? = some insn → l ∈ insn.branchTargets → b.target? l = none →
      b.Violates (.unboundLabel i l)

variable {b : Body} {x y : Exploration}

/-! ### Violations -/

theorem targetStates_error {i d : Nat} {ls : List Label} {e : StackError}
    (fails : b.targetStates i d ls = .error e) :
    ∃ l ∈ ls, b.target? l = none ∧ e = .unboundLabel i l := by
  induction ls with
  | nil => simp [targetStates] at fails
  | cons l ls ih =>
    cases found : b.target? l with
    | none =>
      obtain rfl : StackError.unboundLabel i l = e := by simpa [targetStates, found] using fails
      exact ⟨l, List.mem_cons_self, found, rfl⟩
    | some target =>
      cases rest : b.targetStates i d ls with
      | ok states => simp [targetStates, found, rest] at fails
      | error e' =>
        obtain rfl : e' = e := by simpa [targetStates, found, rest] using fails
        obtain ⟨k, member, lost, rfl⟩ := ih rest
        exact ⟨k, List.mem_cons_of_mem _ member, lost, rfl⟩

theorem Reaches.violates {i d : Nat} {insn : Instruction} {e : StackError}
    (reached : b.Reaches (i, d)) (code : b.code[i]? = some insn)
    (fails : b.successorsOf insn i d = .error e) : b.Violates e := by
  by_cases short : d < insn.stackEffect.pops
  · obtain rfl : StackError.underflow i insn.text = e := by
      simpa [successorsOf, short] using fails
    exact .underflow reached code short
  simp only [successorsOf, if_neg short] at fails
  split at fails
  · next ret =>
    split at fails
    · cases fails
    · next differs =>
      cases fails
      exact .badReturn reached code ret differs
  · cases fails
  · cases fails
  · split at fails
    · next e' stopped =>
      cases fails
      obtain ⟨l, member, lost, rfl⟩ := targetStates_error stopped
      exact .unboundLabel reached code member lost
    · split at fails
      · next falls =>
        split at fails
        · next final =>
          cases fails
          exact .fallsOffEnd reached code falls final
        · cases fails
      · cases fails

theorem Violates.not_disciplined {e : StackError} (violated : b.Violates e) : ¬b.Disciplined := by
  intro disciplined
  cases violated with
  | underflow reached code short =>
    exact Nat.not_le.mpr short (disciplined.canRun reached code).enough
  | mismatch first second apart => exact apart (disciplined.agree first second)
  | badReturn reached code ret differs =>
    exact differs ((disciplined.canRun reached code).returns ret)
  | fallsOffEnd reached code falls final =>
    exact Nat.not_lt.mpr final ((disciplined.canRun reached code).onward falls)
  | unboundLabel reached code member lost =>
    obtain ⟨j, found⟩ := (disciplined.canRun reached code).resolved _ member
    cases lost.symm.trans found

/-! ### One state taken -/

theorem Explored.of_mem {work work' : List State} {depths : List (Option Nat)}
    (explored : b.Explored work depths) (same : ∀ t, t ∈ work ↔ t ∈ work') :
    b.Explored work' depths := by
  have met : ∀ {t}, Met work depths t ↔ Met work' depths t := or_congr (same _) Iff.rfl
  refine ⟨explored.length, fun found => explored.reached (met.mpr found), fun recorded => ?_,
    fun nonempty => met.mp (explored.entry nonempty)⟩
  obtain ⟨states, runs, closed⟩ := explored.closed recorded
  exact ⟨states, runs, fun t member => met.mp (closed t member)⟩

theorem Takes.explored (taken : b.Takes x y) (explored : b.Explored x.work x.depths) :
    b.Explored y.work y.depths := by
  cases taken with
  | known order recorded => exact (explored.of_mem fun _ => order.mem_iff).skip recorded
  | discover order fresh code runs joined =>
    have found := (explored.of_mem fun _ => order.mem_iff).discover fresh
      ((successors_at code).trans runs)
    exact found.of_mem fun t => by simp [joined.mem_iff]

theorem Takes.decreases (taken : b.Takes x y) :
    y.work.length + pending b.code y.depths < x.work.length + pending b.code x.depths := by
  cases taken with
  | known order =>
    simp only [order.length_eq, List.length_cons]
    omega
  | @discover i d rest states next insn order fresh code runs joined =>
    have spent := pending_set (d := d) code fresh
    have count := successors_length runs
    simp only [order.length_eq, joined.length_eq, List.length_append, List.length_cons]
    omega

theorem takes_wf (b : Body) : WellFounded fun y x => b.Takes x y :=
  Subrelation.wf (fun taken => taken.decreases)
    (measure fun x : Exploration => x.work.length + pending b.code x.depths).wf

/-- While work is left there is a next step, or the exploration fails. -/
theorem Explored.proceeds (explored : b.Explored x.work x.depths) :
    (∃ result, b.Ends x result) ∨ ∃ y, b.Takes x y := by
  obtain ⟨work, depths⟩ := x
  match work, explored with
  | [], _ => exact .inl ⟨_, .done⟩
  | (i, d) :: rest, explored =>
    obtain ⟨insn, entry, code, found⟩ := explored.at_work
    cases entry with
    | some known =>
      by_cases same : known = d
      · subst same
        exact .inr ⟨_, .known (.refl _) found⟩
      · exact .inl ⟨_, .clash List.mem_cons_self found same⟩
    | none =>
      cases runs : b.successorsOf insn i d with
      | error e => exact .inl ⟨_, .fails List.mem_cons_self found code runs⟩
      | ok states => exact .inr ⟨_, .discover (.refl _) found code runs (.refl _)⟩

/-! ### Bounds -/

/-- An exploration stays within the body: it takes instructions of the body only, and no depth is
greater than the number of instructions. -/
structure Within (b : Body) (x : Exploration) : Prop where
  length : x.depths.length = b.code.length
  index : ∀ s ∈ x.work, s.1 < b.code.length
  depth : ∀ s ∈ x.work, s.2 ≤ b.code.length
  recorded : ∀ {i d : Nat}, x.depths[i]? = some (some d) → d ≤ b.code.length

/-- How many instructions have their depth. -/
def discovered (depths : List (Option Nat)) : Nat := depths.countP (·.isSome)

theorem discovered_le (depths : List (Option Nat)) : discovered depths ≤ depths.length :=
  List.countP_le_length

theorem discovered_set {depths : List (Option Nat)} {i d : Nat} (fresh : depths[i]? = some none) :
    discovered (depths.set i (some d)) = discovered depths + 1 := by
  induction depths generalizing i with
  | nil => simp at fresh
  | cons first depths ih =>
    cases i with
    | zero =>
      obtain rfl : first = none := by simpa using fresh
      simp [discovered]
    | succ i =>
      have rest := ih (i := i) (by simpa using fresh)
      simp only [discovered] at rest
      simp only [discovered, List.set_cons_succ, List.countP_cons, rest]
      omega

theorem pushes_le (insn : Instruction) :
    insn.stackEffect.pushes ≤ insn.stackEffect.pops + 1 := by
  unfold Instruction.stackEffect
  split <;> try simp
  all_goals
    split
    · next m _ => cases m.returns <;> simp
    · simp

theorem Leads.depth {i d j e : Nat} (leads : b.Leads (i, d) (j, e)) : e ≤ d + 1 := by
  obtain ⟨insn, -, can, way⟩ := leads_iff.mp leads
  have pushes := pushes_le insn
  have pops := can.enough
  have after : depthAfter insn d ≤ d + 1 := by
    unfold depthAfter
    omega
  obtain ⟨-, -, rfl⟩ | ⟨l, -, -, rfl⟩ := way
  · exact after
  · unfold depthAtTarget
    split <;> omega

/-- Every instruction adds one value at most, so a depth is at most the number of instructions that
have theirs. -/
structure Shallow (x : Exploration) : Prop where
  work : ∀ s ∈ x.work, s.2 ≤ discovered x.depths
  recorded : ∀ {i d : Nat}, x.depths[i]? = some (some d) → d ≤ discovered x.depths

theorem Takes.shallow (taken : b.Takes x y) (shallow : Shallow x) : Shallow y := by
  cases taken with
  | known order =>
    exact ⟨fun s member => shallow.work s (order.mem_iff.mpr (List.mem_cons_of_mem _ member)),
      shallow.recorded⟩
  | @discover i d rest states next insn order fresh code runs joined =>
    have grown := discovered_set (d := d) fresh
    have here : d ≤ discovered x.depths :=
      shallow.work (i, d) (order.mem_iff.mpr List.mem_cons_self)
    refine ⟨fun s member => ?_, fun {j e} recorded => ?_⟩
    · rcases List.mem_append.mp (joined.mem_iff.mp member) with new | later
      · have leads : b.Leads (i, d) s := ⟨states, (successors_at code).trans runs, new⟩
        have bound := leads.depth
        simp only
        omega
      · have bound := shallow.work s (order.mem_iff.mpr (List.mem_cons_of_mem _ later))
        simp only
        omega
    · simp only [List.getElem?_set] at recorded
      split at recorded
      · split at recorded
        · obtain rfl : d = e := by simpa using recorded
          simp only
          omega
        · cases recorded
      · have bound := shallow.recorded recorded
        simp only
        omega

theorem Explored.within (explored : b.Explored x.work x.depths) (shallow : Shallow x) :
    b.Within x := by
  have most : discovered x.depths ≤ b.code.length := explored.length ▸ discovered_le x.depths
  exact ⟨explored.length, fun s member => (explored.reached (.inl member)).lt,
    fun s member => Nat.le_trans (shallow.work s member) most,
    fun recorded => Nat.le_trans (shallow.recorded recorded) most⟩

/-! ### Whole runs -/

theorem start_explored (b : Body) :
    b.Explored (Exploration.start b).work (Exploration.start b).depths := by
  by_cases nothing : b.code = []
  · refine ⟨by simp [Exploration.start, nothing], ?_, by simp [Exploration.start, nothing],
      fun nonempty => by simp [nothing] at nonempty⟩
    rintro t (member | recorded)
    · simp [Exploration.start, nothing] at member
    · simp [Exploration.start, nothing] at recorded
  · have here := explored_start (List.length_pos_iff.mpr nothing)
    simpa [Exploration.start, nothing] using here

theorem start_shallow (b : Body) : Shallow (.start b) := by
  constructor
  · intro s member
    by_cases nothing : b.code = []
    · simp [Exploration.start, nothing] at member
    · obtain rfl : s = (0, 0) := by simpa [Exploration.start, nothing] using member
      exact Nat.zero_le _
  · intro i d recorded
    simp [Exploration.start, List.getElem?_replicate] at recorded

theorem reached_exploration (run : Relation.ReflTransGen b.Takes (.start b) x) :
    b.Explored x.work x.depths ∧ Shallow x := by
  induction run with
  | refl => exact ⟨start_explored b, start_shallow b⟩
  | tail _ taken ih => exact ⟨taken.explored ih.1, taken.shallow ih.2⟩

/-- An exploration that ends in a table of depths has found the reachable states; one that fails has
met a violation. -/
theorem Ends.sound {result : Except StackError (List (Option Nat))} (ends : b.Ends x result)
    (explored : b.Explored x.work x.depths) :
    match result with
    | .ok depths => b.stackDepths = .ok depths
    | .error e => b.Violates e := by
  cases ends with
  | done =>
    exact stackDepths_iff.mpr
      ⟨explored.disciplined, explored.length, fun i d => explored.reaches_iff.symm⟩
  | clash member recorded apart =>
    exact .mismatch (explored.reached (.inr recorded)) (explored.reached (.inl member)) apart
  | fails member fresh code runs => exact (explored.reached (.inl member)).violates code runs

theorem explore_ends {fuel : Nat} {work : List State} {depths : List (Option Nat)}
    (enough : work.length + pending b.code depths ≤ fuel) (explored : b.Explored work depths) :
    ∃ y, Relation.ReflTransGen b.Takes ⟨work, depths⟩ y ∧
      b.Ends y (b.explore fuel work depths) := by
  induction fuel generalizing work depths with
  | zero =>
    obtain rfl : work = [] := List.length_eq_zero_iff.mp (by omega)
    exact ⟨_, .refl, by simpa [explore] using .done⟩
  | succ fuel ih =>
    rcases work with _ | ⟨⟨i, d⟩, rest⟩
    · exact ⟨_, .refl, by simpa [explore] using .done⟩
    · obtain ⟨insn, entry, code, found⟩ := explored.at_work
      have onward : ∀ {y : Exploration}, b.Takes ⟨(i, d) :: rest, depths⟩ y →
          ∃ z, Relation.ReflTransGen b.Takes ⟨(i, d) :: rest, depths⟩ z ∧
            b.Ends z (b.explore fuel y.work y.depths) := by
        intro y taken
        have less := taken.decreases
        obtain ⟨z, run, ends⟩ := ih (by simp only at less; omega) (taken.explored explored)
        exact ⟨z, .head taken run, ends⟩
      cases entry with
      | some known =>
        by_cases same : known = d
        · subst same
          simpa [explore, found] using onward (.known (.refl _) found)
        · refine ⟨_, .refl, ?_⟩
          simpa [explore, found, same] using Ends.clash List.mem_cons_self found same
      | none =>
        cases runs : b.successorsOf insn i d with
        | error e =>
          refine ⟨_, .refl, ?_⟩
          simpa [explore, found, successors_at code, runs] using
            Ends.fails List.mem_cons_self found code runs
        | ok states =>
          simpa [explore, found, successors_at code, runs] using
            onward (.discover (.refl _) found code runs ((List.reverse_perm states).append_right _))

theorem stackDepths_ends (b : Body) :
    ∃ x, Relation.ReflTransGen b.Takes (.start b) x ∧ b.Ends x b.stackDepths := by
  by_cases nothing : b.code = []
  · refine ⟨_, .refl, ?_⟩
    simpa [stackDepths, Exploration.start, nothing] using Ends.done
  · have nonempty := List.length_pos_iff.mpr nothing
    have enough : [((0, 0) : State)].length + pending b.code (b.code.map fun _ => none) ≤
        b.explorationBound := by
      simp only [pending_none, explorationBound, List.length_cons, List.length_nil]
      omega
    have ran := explore_ends enough (explored_start nonempty)
    rw [stackDepths_explore nonempty]
    simpa [Exploration.start, nothing] using ran

/-- The analysis of stack depths is exact. It succeeds exactly on the bodies in which no reachable
state commits a violation and no instruction is reached with two depths; each instruction then gets
the depth that it is reached with, and none if control never comes to it. When it fails, control
really comes to the violation. All this is so in whatever order the states are taken: an exploration
stays within the body, can always go on until it ends, and must end, with these depths or else with
a violation that control comes to. -/
theorem stackDepths_exact (b : Body) :
    ((∃ depths, b.stackDepths = .ok depths) ↔ b.Disciplined) ∧
    (∀ depths, b.stackDepths = .ok depths → depths.length = b.code.length ∧
      ∀ i < b.code.length, (∀ d, depths[i]? = some (some d) ↔ b.Reaches (i, d)) ∧
        (depths[i]? = some none ↔ ∀ d, ¬b.Reaches (i, d))) ∧
    (∀ e, b.stackDepths = .error e → b.Violates e) ∧
    (∃ x, Relation.ReflTransGen b.Takes (.start b) x ∧ b.Ends x b.stackDepths) ∧
    (WellFounded fun y x => b.Takes x y) ∧
    ∀ x, Relation.ReflTransGen b.Takes (.start b) x →
      b.Within x ∧ ((∃ result, b.Ends x result) ∨ ∃ y, b.Takes x y) ∧
      ∀ result, b.Ends x result →
        (∀ depths, result = .ok depths ↔ b.stackDepths = .ok depths) ∧
        ∀ e, result = .error e → b.Violates e := by
  have succeeds : (∃ depths, b.stackDepths = .ok depths) ↔ b.Disciplined :=
    ⟨fun ⟨_, done⟩ => (stackDepths_iff.mp done).1, Disciplined.stackDepths⟩
  have ends : ∀ {x}, Relation.ReflTransGen b.Takes (.start b) x → ∀ {result}, b.Ends x result →
      (∀ depths, result = .ok depths ↔ b.stackDepths = .ok depths) ∧
      ∀ e, result = .error e → b.Violates e := by
    intro x run result ended
    have sound := ended.sound (reached_exploration run).1
    cases result with
    | error e =>
      refine ⟨fun depths => ⟨nofun, fun done => ?_⟩, by rintro _ ⟨rfl⟩; exact sound⟩
      exact (sound.not_disciplined (succeeds.mp ⟨depths, done⟩)).elim
    | ok depths =>
      refine ⟨fun depths' => ?_, nofun⟩
      rw [show b.stackDepths = .ok depths from sound]
  obtain ⟨last, run, ended⟩ := stackDepths_ends b
  refine ⟨succeeds, fun depths done => ?_, (ends run ended).2, ⟨last, run, ended⟩, takes_wf b,
    fun x run => ?_⟩
  · obtain ⟨-, length, recorded⟩ := stackDepths_iff.mp done
    refine ⟨length, fun i bound => ⟨recorded i, ?_⟩⟩
    simp only [← recorded, List.getElem?_eq_getElem (length ▸ bound)]
    cases depths[i] <;> simp
  · obtain ⟨explored, shallow⟩ := reached_exploration run
    exact ⟨explored.within shallow, explored.proceeds, fun _ => ends run⟩

/-- A loop with a way out, and an instruction behind it that control never comes to. -/
def loop : Body :=
  ⟨[.ldarg 0, .brtrue ⟨0⟩, .br ⟨1⟩, .ret, .nop], .ofList [(⟨0⟩, 3), (⟨1⟩, 0)], false⟩

/-- The loop with its value left on the stack each time round. -/
def growingLoop : Body := { loop with code := [.ldarg 0, .dup, .brtrue ⟨0⟩, .br ⟨1⟩] }

theorem loop_depths_exact :
    loop.Disciplined ∧ loop.Reaches (3, 0) ∧ (∀ d, ¬loop.Reaches (4, d)) ∧
    (∀ x result, Relation.ReflTransGen loop.Takes (.start loop) x → loop.Ends x result →
      result = .ok [some 0, some 1, some 0, some 0, none]) ∧
    growingLoop.Violates (.mismatch 0 0 1) := by
  obtain ⟨succeeds, depths, -, -, -, orders⟩ := stackDepths_exact loop
  have done : loop.stackDepths = .ok [some 0, some 1, some 0, some 0, none] := by decide
  obtain ⟨-, exact⟩ := depths _ done
  refine ⟨succeeds.mp ⟨_, done⟩, ((exact 3 (by decide)).1 0).mp rfl, (exact 4 (by decide)).2.mp rfl,
    fun x result run ends => (((orders x run).2.2 result ends).1 _).mpr done, ?_⟩
  exact (stackDepths_exact growingLoop).2.2.1 _ (by decide)

end Body

end Interpose
