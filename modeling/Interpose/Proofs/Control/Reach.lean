import Interpose.Control.Depths
import Mathlib.Data.List.Forall2

/-!
Reachable states of a body, and what the exploration of stack depths finds out about them. The
exploration succeeds exactly on the bodies in which every reachable state can run on and no
instruction is reached with two depths; its result then holds the reachable states and no others.
-/

set_option autoImplicit false
set_option relaxedAutoImplicit false

namespace Interpose.Body

variable {b : Body}

/-- Control goes from one state to another in one step. -/
def Leads (b : Body) (s t : State) : Prop :=
  ∃ states, b.successors s.1 s.2 = .ok states ∧ t ∈ states

/-- The states that control comes to from the entry with an empty stack. -/
inductive Reaches (b : Body) : State → Prop
  | entry : 0 < b.code.length → Reaches b (0, 0)
  | step {s t : State} : Reaches b s → b.Leads s t → Reaches b t

/-- Every reachable state runs on without a violation, and always with the same depth. -/
structure Disciplined (b : Body) : Prop where
  runs : ∀ {s}, b.Reaches s → ∃ states, b.successors s.1 s.2 = .ok states
  agree : ∀ {i d e}, b.Reaches (i, d) → b.Reaches (i, e) → d = e

/-! ### One step -/

private theorem related_left {α β : Type} {R : α → β → Prop} {as : List α} {bs : List β}
    (related : as.Forall₂ R bs) {a : α} (member : a ∈ as) : ∃ b ∈ bs, R a b := by
  induction related with
  | nil => cases member
  | cons here _ ih =>
    rcases List.mem_cons.mp member with rfl | later
    · exact ⟨_, List.mem_cons_self, here⟩
    · obtain ⟨b, found, holds⟩ := ih later
      exact ⟨b, List.mem_cons_of_mem _ found, holds⟩

private theorem related_right {α β : Type} {R : α → β → Prop} {as : List α} {bs : List β}
    (related : as.Forall₂ R bs) {b : β} (member : b ∈ bs) : ∃ a ∈ as, R a b :=
  related_left related.flip member

theorem target_lt {l : Label} {i : Nat} (found : b.target? l = some i) : i < b.code.length := by
  simpa using (Option.filter_eq_some_iff.mp found).2

theorem targetStates_iff {i d : Nat} {ls : List Label} {states : List State} :
    b.targetStates i d ls = .ok states ↔
      ls.Forall₂ (fun l t => b.target? l = some t.1 ∧ t.2 = d) states := by
  induction ls generalizing states with
  | nil => cases states <;> simp [targetStates]
  | cons l ls ih =>
    cases found : b.target? l with
    | none => simp [targetStates, found, List.forall₂_cons_left_iff]
    | some target =>
      cases rest : b.targetStates i d ls with
      | error e =>
        simp only [targetStates, found, rest, reduceCtorEq, false_iff]
        intro related
        obtain ⟨t, tail, -, related, -⟩ := List.forall₂_cons_left_iff.mp related
        exact absurd (ih.mpr related) (by simp [rest])
      | ok tail =>
        have tails : ∀ us : List State, tail = us ↔
            ls.Forall₂ (fun l t => b.target? l = some t.1 ∧ t.2 = d) us := by
          intro us
          rw [← ih, rest, Except.ok.injEq]
        simp only [targetStates, found, rest, Except.ok.injEq, List.forall₂_cons_left_iff,
          Option.some.injEq]
        constructor
        · rintro rfl
          exact ⟨(target, d), tail, ⟨rfl, rfl⟩, (tails tail).mp rfl, rfl⟩
        · rintro ⟨⟨j, e⟩, us, ⟨rfl, rfl⟩, related, rfl⟩
          rw [(tails us).mpr related]

def depthAfter (insn : Instruction) (d : Nat) : Nat :=
  d - insn.stackEffect.pops + insn.stackEffect.pushes

def depthAtTarget (insn : Instruction) (d : Nat) : Nat :=
  if insn.opcode = .leave then 0 else depthAfter insn d

theorem successorsOf_iff {insn : Instruction} {i d : Nat} {states : List State} :
    b.successorsOf insn i d = .ok states ↔
      insn.stackEffect.pops ≤ d ∧ (insn.opcode = .ret → d = b.returns.toNat) ∧
      (insn.opcode.fallsThrough = true → i + 1 < b.code.length) ∧
      ∃ ts, insn.branchTargets.Forall₂
          (fun l t => b.target? l = some t.1 ∧ t.2 = depthAtTarget insn d) ts ∧
        states = (if insn.opcode.fallsThrough then [(i + 1, depthAfter insn d)] else []) ++ ts := by
  by_cases enough : d < insn.stackEffect.pops
  · have short : ¬insn.stackEffect.pops ≤ d := by omega
    simp [successorsOf, enough, short]
  have enough' : insn.stackEffect.pops ≤ d := by omega
  have plain : insn.opcode.isBranch = false → ∀ ts : List State, insn.branchTargets.Forall₂
      (fun l t => b.target? l = some t.1 ∧ t.2 = depthAtTarget insn d) ts ↔ ts = [] := by
    intro still ts
    simp [Instruction.branchTargets, still]
  simp only [successorsOf, if_neg enough, enough', true_and]
  split
  · next ret =>
    simp only [ret, forall_true_left, plain (by rw [ret]; rfl)]
    by_cases agrees : d = b.returns.toNat <;> simp [agrees, Opcode.fallsThrough, Opcode.flow, eq_comm]
  · next throws =>
    simp only [plain (by rw [throws]; rfl)]
    simp [throws, Opcode.fallsThrough, Opcode.flow, eq_comm]
  · next ends =>
    simp only [plain (by rw [ends]; rfl)]
    simp [ends, Opcode.fallsThrough, Opcode.flow, eq_comm]
  · next op ret throws ends =>
    have noRet : (insn.opcode = .ret → d = b.returns.toNat) ↔ True :=
      ⟨fun _ => trivial, fun _ returns => (ret returns).elim⟩
    simp only [← targetStates_iff (i := i), noRet, true_and, depthAtTarget, depthAfter]
    cases b.targetStates i _ insn.branchTargets with
    | error e => simp
    | ok ts =>
      by_cases falls : insn.opcode.fallsThrough = true
      · by_cases final : b.code.length ≤ i + 1
        · simp [falls, final, Nat.not_lt.mpr final]
        · simp [falls, final, Nat.lt_of_not_le final, eq_comm]
      · simp [falls, eq_comm]

theorem successors_at {i d : Nat} {insn : Instruction} (code : b.code[i]? = some insn) :
    b.successors i d = b.successorsOf insn i d := by
  simp [successors, code]

/-- An instruction can run at an index and a depth without a violation. -/
structure CanRun (b : Body) (insn : Instruction) (i d : Nat) : Prop where
  enough : insn.stackEffect.pops ≤ d
  returns : insn.opcode = .ret → d = b.returns.toNat
  onward : insn.opcode.fallsThrough = true → i + 1 < b.code.length
  resolved : ∀ l ∈ insn.branchTargets, ∃ j, b.target? l = some j

theorem canRun_iff {i d : Nat} {insn : Instruction} (code : b.code[i]? = some insn) :
    (∃ states, b.successors i d = .ok states) ↔ b.CanRun insn i d := by
  rw [successors_at code]
  simp only [successorsOf_iff]
  constructor
  · rintro ⟨_, enough, returns, onward, ts, related, -⟩
    refine ⟨enough, returns, onward, fun l member => ?_⟩
    obtain ⟨t, -, found, -⟩ := related_left related member
    exact ⟨t.1, found⟩
  · intro runs
    have pairs : ∀ ls : List Label, (∀ l ∈ ls, ∃ j, b.target? l = some j) → ∃ ts : List State,
        ls.Forall₂ (fun l t => b.target? l = some t.1 ∧ t.2 = depthAtTarget insn d) ts := by
      intro ls each
      induction ls with
      | nil => exact ⟨[], .nil⟩
      | cons l ls ih =>
        obtain ⟨j, found⟩ := each l List.mem_cons_self
        obtain ⟨ts, related⟩ := ih fun k member => each k (List.mem_cons_of_mem _ member)
        exact ⟨(j, _) :: ts, .cons ⟨found, rfl⟩ related⟩
    obtain ⟨ts, related⟩ := pairs _ runs.resolved
    exact ⟨_, runs.enough, runs.returns, runs.onward, ts, related, rfl⟩

theorem leads_iff {i d j e : Nat} :
    b.Leads (i, d) (j, e) ↔ ∃ insn, b.code[i]? = some insn ∧ b.CanRun insn i d ∧
      (insn.opcode.fallsThrough = true ∧ j = i + 1 ∧ e = depthAfter insn d ∨
        ∃ l ∈ insn.branchTargets, b.target? l = some j ∧ e = depthAtTarget insn d) := by
  cases code : b.code[i]? with
  | none => simp [Leads, successors, code]
  | some insn =>
    have member : ∀ {ts : List State}, insn.branchTargets.Forall₂
        (fun l t => b.target? l = some t.1 ∧ t.2 = depthAtTarget insn d) ts → ((j, e) ∈
          (if insn.opcode.fallsThrough = true then [(i + 1, depthAfter insn d)] else []) ++ ts ↔
        (insn.opcode.fallsThrough = true ∧ j = i + 1 ∧ e = depthAfter insn d ∨
          ∃ l ∈ insn.branchTargets, b.target? l = some j ∧ e = depthAtTarget insn d)) := by
      intro ts related
      rw [List.mem_append]
      refine or_congr ?_ ⟨fun here => ?_, ?_⟩
      · split <;> simp_all
      · obtain ⟨l, named, found, depth⟩ := related_right related here
        exact ⟨l, named, found, depth⟩
      · rintro ⟨l, named, found, rfl⟩
        obtain ⟨⟨k, depth⟩, here, target, rfl⟩ := related_left related named
        obtain rfl : k = j := Option.some.inj (target.symm.trans found)
        exact here
    simp only [Option.some.injEq, exists_eq_left']
    constructor
    · rintro ⟨states, runs, here⟩
      refine ⟨(canRun_iff code).mp ⟨states, runs⟩, ?_⟩
      obtain ⟨-, -, -, ts, related, rfl⟩ := successorsOf_iff.mp (successors_at code ▸ runs)
      exact (member related).mp here
    · rintro ⟨can, way⟩
      obtain ⟨states, runs⟩ := (canRun_iff code).mpr can
      refine ⟨states, runs, ?_⟩
      obtain ⟨-, -, -, ts, related, rfl⟩ := successorsOf_iff.mp (successors_at code ▸ runs)
      exact (member related).mpr way

theorem leads_next_iff {i d : Nat} {insn : Instruction} (code : b.code[i]? = some insn)
    (falls : insn.opcode.fallsThrough = true) (still : insn.branchTargets = []) {t : State} :
    b.Leads (i, d) t ↔ b.CanRun insn i d ∧ t = (i + 1, depthAfter insn d) := by
  obtain ⟨j, e⟩ := t
  simp [leads_iff, code, falls, still]

theorem target_of_mem {ls : List Label} {d : Nat} {ts : List State}
    (related : ls.Forall₂ (fun l t => b.target? l = some t.1 ∧ t.2 = d) ts) {t : State}
    (member : t ∈ ts) : t.1 < b.code.length := by
  obtain ⟨l, -, found, -⟩ := related_right related member
  exact target_lt found

theorem successors_lt {i d : Nat} {states : List State} (runs : b.successors i d = .ok states)
    {t : State} (member : t ∈ states) : t.1 < b.code.length := by
  cases code : b.code[i]? with
  | none => simp_all [successors]
  | some insn =>
    rw [successors_at code] at runs
    obtain ⟨-, -, onward, ts, related, rfl⟩ := successorsOf_iff.mp runs
    rcases List.mem_append.mp member with next | target
    · split at next
      · next falls =>
        obtain rfl := List.mem_singleton.mp next
        exact onward falls
      · cases next
    · exact target_of_mem related target

theorem Leads.lt {s t : State} (leads : b.Leads s t) : t.1 < b.code.length := by
  obtain ⟨states, runs, member⟩ := leads
  exact successors_lt runs member

theorem Reaches.lt {s : State} (reached : b.Reaches s) : s.1 < b.code.length := by
  cases reached with
  | entry nonempty => exact nonempty
  | step _ leads => exact leads.lt

theorem Disciplined.canRun (disciplined : b.Disciplined) {i d : Nat} (reached : b.Reaches (i, d))
    {insn : Instruction} (code : b.code[i]? = some insn) : b.CanRun insn i d :=
  (canRun_iff code).mp (disciplined.runs reached)

theorem Disciplined.next (disciplined : b.Disciplined) {i d : Nat} (reached : b.Reaches (i, d))
    {insn : Instruction} (code : b.code[i]? = some insn) (falls : insn.opcode.fallsThrough = true) :
    b.Reaches (i + 1, depthAfter insn d) :=
  .step reached (leads_iff.mpr
    ⟨insn, code, disciplined.canRun reached code, .inl ⟨falls, rfl, rfl⟩⟩)

theorem Disciplined.jump (disciplined : b.Disciplined) {i d : Nat} (reached : b.Reaches (i, d))
    {insn : Instruction} (code : b.code[i]? = some insn) {l : Label} (target : l ∈ insn.branchTargets)
    {j : Nat} (found : b.target? l = some j) : b.Reaches (j, depthAtTarget insn d) :=
  .step reached (leads_iff.mpr
    ⟨insn, code, disciplined.canRun reached code, .inr ⟨l, target, found, rfl⟩⟩)

theorem successors_length {i d : Nat} {insn : Instruction} {states : List State}
    (runs : b.successorsOf insn i d = .ok states) :
    states.length ≤ insn.branchTargets.length + 1 := by
  obtain ⟨-, -, -, ts, related, rfl⟩ := successorsOf_iff.mp runs
  have same := related.length_eq
  split <;> simp <;> omega

/-! ### Exploration -/

/-- A state that the exploration has recorded or still has to take. -/
def Met (work : List State) (depths : List (Option Nat)) (t : State) : Prop :=
  t ∈ work ∨ depths[t.1]? = some (some t.2)

/-- What holds while the exploration runs: all it has met is reachable, and what a recorded state
leads to has been met too. -/
structure Explored (b : Body) (work : List State) (depths : List (Option Nat)) : Prop where
  length : depths.length = b.code.length
  reached : ∀ {t}, Met work depths t → b.Reaches t
  closed : ∀ {i d}, depths[i]? = some (some d) →
    ∃ states, b.successors i d = .ok states ∧ ∀ t ∈ states, Met work depths t
  entry : 0 < b.code.length → Met work depths (0, 0)

/-- How many states the instructions without a depth can still add. -/
def pending : List Instruction → List (Option Nat) → Nat
  | insn :: code, none :: depths => insn.branchTargets.length + 1 + pending code depths
  | _ :: code, some _ :: depths => pending code depths
  | _, _ => 0

theorem pending_set {code : List Instruction} {depths : List (Option Nat)} {i d : Nat}
    {insn : Instruction} (here : code[i]? = some insn) (fresh : depths[i]? = some none) :
    pending code (depths.set i (some d)) + (insn.branchTargets.length + 1) =
      pending code depths := by
  induction code generalizing depths i with
  | nil => simp at here
  | cons first code ih =>
    cases depths with
    | nil => simp at fresh
    | cons known depths =>
      cases i with
      | zero =>
        obtain rfl : first = insn := by simpa using here
        obtain rfl : known = none := by simpa using fresh
        simp only [List.set_cons_zero, pending]
        omega
      | succ i =>
        have rest := ih (i := i) (by simpa using here) (by simpa using fresh)
        cases known <;> simp only [List.set_cons_succ, pending] <;> omega

theorem pending_none (code : List Instruction) :
    pending code (code.map fun _ => none) =
      code.foldr (fun insn states => insn.branchTargets.length + 1 + states) 0 := by
  induction code with
  | nil => rfl
  | cons insn code ih => simp only [List.map_cons, pending, ih, List.foldr_cons]

theorem Explored.skip {s : State} {work : List State} {depths : List (Option Nat)}
    (explored : b.Explored (s :: work) depths) (known : depths[s.1]? = some (some s.2)) :
    b.Explored work depths := by
  have still : ∀ {t}, Met (s :: work) depths t → Met work depths t := by
    rintro t (member | recorded)
    · rcases List.mem_cons.mp member with rfl | later
      · exact .inr known
      · exact .inl later
    · exact .inr recorded
  refine ⟨explored.length, fun {t} met => explored.reached ?_, fun {i d} recorded => ?_,
    fun nonempty => still (explored.entry nonempty)⟩
  · exact met.imp (List.mem_cons_of_mem s) id
  · obtain ⟨states, runs, met⟩ := explored.closed recorded
    exact ⟨states, runs, fun t member => still (met t member)⟩

theorem Explored.discover {i d : Nat} {work states : List State} {depths : List (Option Nat)}
    (explored : b.Explored ((i, d) :: work) depths) (fresh : depths[i]? = some none)
    (runs : b.successors i d = .ok states) :
    b.Explored (states.reverse ++ work) (depths.set i (some d)) := by
  have bound : i < depths.length := (List.getElem?_eq_some_iff.mp fresh).1
  have here : (depths.set i (some d))[i]? = some (some d) := by simp [bound]
  have other : ∀ {j}, j ≠ i → (depths.set i (some d))[j]? = depths[j]? :=
    fun apart => List.getElem?_set_ne (Ne.symm apart)
  have origin : b.Reaches (i, d) := explored.reached (.inl List.mem_cons_self)
  have still : ∀ {t}, Met ((i, d) :: work) depths t →
      Met (states.reverse ++ work) (depths.set i (some d)) t := by
    rintro t (member | recorded)
    · rcases List.mem_cons.mp member with rfl | later
      · exact .inr here
      · exact .inl (List.mem_append_right _ later)
    · have apart : t.1 ≠ i := by
        rintro same
        rw [same, fresh] at recorded
        cases recorded
      exact .inr (by rw [other apart, recorded])
  refine ⟨by simp [explored.length], ?_, ?_, fun nonempty => still (explored.entry nonempty)⟩
  · rintro ⟨j, e⟩ (member | recorded)
    · rcases List.mem_append.mp member with new | later
      · exact .step origin ⟨states, runs, List.mem_reverse.mp new⟩
      · exact explored.reached (.inl (List.mem_cons_of_mem _ later))
    · by_cases same : j = i
      · subst same
        obtain rfl : d = e := by simpa [bound] using recorded
        exact origin
      · exact explored.reached (.inr (by rwa [other same] at recorded))
  · intro j e recorded
    by_cases same : j = i
    · subst same
      obtain rfl : d = e := by simpa [bound] using recorded
      exact ⟨states, runs, fun t member =>
        .inl (List.mem_append_left _ (List.mem_reverse.mpr member))⟩
    · rw [other same] at recorded
      obtain ⟨next, leads, met⟩ := explored.closed recorded
      exact ⟨next, leads, fun t member => still (met t member)⟩

theorem Explored.at_work {i d : Nat} {work : List State} {depths : List (Option Nat)}
    (explored : b.Explored ((i, d) :: work) depths) :
    ∃ insn known, b.code[i]? = some insn ∧ depths[i]? = some known := by
  have bound : i < b.code.length := (explored.reached (.inl List.mem_cons_self)).lt
  exact ⟨_, _, List.getElem?_eq_getElem bound,
    List.getElem?_eq_getElem (explored.length ▸ bound)⟩

/-- With enough fuel nothing is left to do at the end. -/
theorem explore_sound {fuel : Nat} {work : List State} {depths result : List (Option Nat)}
    (enough : work.length + pending b.code depths ≤ fuel) (explored : b.Explored work depths)
    (done : b.explore fuel work depths = .ok result) : b.Explored [] result := by
  induction fuel generalizing work depths with
  | zero =>
    obtain rfl : work = [] := List.length_eq_zero_iff.mp (by omega)
    obtain rfl : depths = result := by simpa [explore] using done
    exact explored
  | succ fuel ih =>
    match work, explored, enough, done with
    | [], explored, _, done =>
      obtain rfl : depths = result := by simpa [explore] using done
      exact explored
    | (i, d) :: work, explored, enough, done =>
      obtain ⟨insn, known, code, found⟩ := explored.at_work
      simp only [List.length_cons] at enough
      cases known with
      | some known =>
        by_cases same : known = d
        · subst same
          refine ih (by omega) (explored.skip found) ?_
          simpa [explore, found] using done
        · simp [explore, found, same] at done
      | none =>
        cases runs : b.successors i d with
        | error e => simp [explore, found, runs] at done
        | ok states =>
          have spent := pending_set (d := d) code found
          have count := successors_length (successors_at code ▸ runs)
          refine ih ?_ (explored.discover found runs) ?_
          · simp only [List.length_append, List.length_reverse]
            omega
          · simpa [explore, found, runs] using done

theorem explore_complete (disciplined : b.Disciplined) {fuel : Nat} {work : List State}
    {depths : List (Option Nat)} (explored : b.Explored work depths) :
    ∃ result, b.explore fuel work depths = .ok result := by
  induction fuel generalizing work depths with
  | zero => exact ⟨depths, by simp [explore]⟩
  | succ fuel ih =>
    match work, explored with
    | [], _ => exact ⟨depths, by simp [explore]⟩
    | (i, d) :: work, explored =>
      obtain ⟨insn, known, code, found⟩ := explored.at_work
      have reached : b.Reaches (i, d) := explored.reached (.inl List.mem_cons_self)
      cases known with
      | some known =>
        obtain rfl : known = d := disciplined.agree (explored.reached (.inr found)) reached
        obtain ⟨result, done⟩ := ih (explored.skip found)
        exact ⟨result, by simpa [explore, found] using done⟩
      | none =>
        obtain ⟨states, runs⟩ := disciplined.runs reached
        obtain ⟨result, done⟩ := ih (explored.discover found runs)
        exact ⟨result, by simpa [explore, found, runs] using done⟩

theorem explored_start (nonempty : 0 < b.code.length) :
    b.Explored [(0, 0)] (b.code.map fun _ => none) := by
  refine ⟨by simp, ?_, fun {i d} recorded => ?_, fun _ => .inl List.mem_cons_self⟩
  · rintro t (member | recorded)
    · obtain rfl := List.mem_singleton.mp member
      exact .entry nonempty
    · simp [List.getElem?_replicate] at recorded
  · simp [List.getElem?_replicate] at recorded

theorem Explored.reaches_iff {depths : List (Option Nat)} (explored : b.Explored [] depths)
    {i d : Nat} : b.Reaches (i, d) ↔ depths[i]? = some (some d) := by
  constructor
  · intro reached
    have met : ∀ {t}, b.Reaches t → depths[t.1]? = some (some t.2) := by
      intro t reached
      induction reached with
      | entry nonempty => simpa [Met] using explored.entry nonempty
      | step _ leads recorded =>
        obtain ⟨states, runs, closed⟩ := explored.closed recorded
        obtain ⟨states', runs', member⟩ := leads
        obtain rfl : states = states' := by simpa [runs] using runs'
        simpa [Met] using closed _ member
    exact met reached
  · exact fun recorded => explored.reached (.inr recorded)

theorem stackDepths_explore (nonempty : 0 < b.code.length) :
    b.stackDepths = b.explore b.explorationBound [(0, 0)] (b.code.map fun _ => none) := by
  cases code : b.code with
  | nil => simp [code] at nonempty
  | cons insn rest => simp [stackDepths, code]

theorem stackDepths_explored {depths : List (Option Nat)} (done : b.stackDepths = .ok depths) :
    b.Explored [] depths := by
  by_cases nonempty : 0 < b.code.length
  · rw [stackDepths_explore nonempty] at done
    refine explore_sound ?_ (explored_start nonempty) done
    simp only [pending_none, explorationBound, List.length_cons, List.length_nil]
    omega
  · have nothing : b.code = [] := List.length_eq_zero_iff.mp (by omega)
    obtain rfl : depths = [] := by simpa [stackDepths, nothing, eq_comm] using done
    refine ⟨by simp [nothing], ?_, by simp, fun some => absurd some nonempty⟩
    rintro t (member | recorded)
    · cases member
    · simp at recorded

theorem Explored.disciplined {depths : List (Option Nat)} (explored : b.Explored [] depths) :
    b.Disciplined where
  runs {s} reached := by
    obtain ⟨states, runs, -⟩ := explored.closed (explored.reaches_iff.mp reached)
    exact ⟨states, runs⟩
  agree {i d e} first second := by
    have same := (explored.reaches_iff.mp first).symm.trans (explored.reaches_iff.mp second)
    simpa using same

theorem Disciplined.stackDepths (disciplined : b.Disciplined) :
    ∃ depths, b.stackDepths = .ok depths := by
  by_cases nonempty : 0 < b.code.length
  · rw [stackDepths_explore nonempty]
    exact explore_complete disciplined (explored_start nonempty)
  · have nothing : b.code = [] := List.length_eq_zero_iff.mp (by omega)
    exact ⟨[], by simp [Body.stackDepths, nothing]⟩

/-- The exploration succeeds exactly on the bodies that keep the discipline, and records the
reachable states. -/
theorem stackDepths_iff {depths : List (Option Nat)} :
    b.stackDepths = .ok depths ↔
      b.Disciplined ∧ depths.length = b.code.length ∧
        ∀ i d, depths[i]? = some (some d) ↔ b.Reaches (i, d) := by
  constructor
  · intro done
    have explored := stackDepths_explored done
    exact ⟨explored.disciplined, explored.length, fun i d => explored.reaches_iff.symm⟩
  · rintro ⟨disciplined, length, recorded⟩
    obtain ⟨result, done⟩ := disciplined.stackDepths
    have explored := stackDepths_explored done
    have entries : ∀ i d, result[i]? = some (some d) ↔ depths[i]? = some (some d) := fun i d =>
      explored.reaches_iff.symm.trans (recorded i d).symm
    obtain rfl : result = depths := by
      apply List.ext_getElem (explored.length.trans length.symm)
      intro i inResult inDepths
      have same := entries i
      simp only [List.getElem?_eq_getElem inResult, List.getElem?_eq_getElem inDepths,
        Option.some.injEq] at same
      exact Option.ext same
    exact done

end Interpose.Body
