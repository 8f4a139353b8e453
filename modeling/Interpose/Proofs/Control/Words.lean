import Interpose.Proofs.Control.Paths

/-!
Stack depths in machine words. A host counts what an instruction takes and puts in sixteen bits and
the depth of a stack in thirty-two, and has no number for a result that does not fit. No exploration
and no walk of a body with less than 2 ^ 28 instructions ever needs one, so that both find out what
they would with numbers of any size.
-/

set_option autoImplicit false
set_option relaxedAutoImplicit false

namespace Interpose

/-! ### Checked arithmetic -/

/-- The sum, if it fits. -/
def wordSum? (x y : UInt32) : Option UInt32 :=
  if x.toNat + y.toNat < UInt32.size then some (x + y) else none

/-- The difference, if it is not negative. -/
def wordDifference? (x y : UInt32) : Option UInt32 :=
  if y.toNat ≤ x.toNat then some (x - y) else none

theorem wordSum_of_lt {x y : UInt32} (fits : x.toNat + y.toNat < UInt32.size) :
    ∃ z, wordSum? x y = some z ∧ z.toNat = x.toNat + y.toNat := by
  refine ⟨x + y, if_pos fits, ?_⟩
  rw [UInt32.toNat_add]
  exact Nat.mod_eq_of_lt fits

theorem wordDifference_of_le {x y : UInt32} (enough : y.toNat ≤ x.toNat) :
    ∃ z, wordDifference? x y = some z ∧ z.toNat = x.toNat - y.toNat :=
  ⟨x - y, if_pos enough, UInt32.toNat_sub_of_le x y (UInt32.le_iff_toNat_le.mpr enough)⟩

/-! ### Effects -/

structure WordEffect where
  pops : UInt16
  pushes : UInt16

/-- The effect of a call: it takes the arguments and the receiver, if their number fits. -/
def MethodRef.wordCallEffect? (m : MethodRef) : Option WordEffect :=
  if m.params.toNat + m.hasThis.toNat < UInt16.size then
    some ⟨m.callPops, m.returns.toUInt16⟩
  else none

/-- The stack effect of an instruction. Only that of a call is computed; where no method decides, an
instruction takes and puts two values at most. -/
def Instruction.wordEffect? (insn : Instruction) : Option WordEffect :=
  match insn.opcode, insn.method? with
  | .call, some m | .callvirt, some m => m.wordCallEffect?
  | .newobj, some m => some ⟨m.params, 1⟩
  | _, _ => some ⟨.ofNat insn.stackEffect.pops, .ofNat insn.stackEffect.pushes⟩

/-- The instruction is not a call with 65535 parameters and a receiver. -/
def Instruction.Countable (insn : Instruction) : Prop :=
  insn.opcode = .call ∨ insn.opcode = .callvirt →
    ∀ m ∈ insn.method?, m.params = 65535 → m.hasThis = false

instance (insn : Instruction) : Decidable insn.Countable :=
  inferInstanceAs (Decidable (_ ∨ _ → ∀ m ∈ insn.method?, m.params = 65535 → m.hasThis = false))

theorem MethodRef.wordCallEffect_some {m : MethodRef}
    (countable : m.params = 65535 → m.hasThis = false) :
    ∃ effect, m.wordCallEffect? = some effect ∧ effect.pops.toNat = m.callPops.toNat ∧
      effect.pushes.toNat = m.returns.toNat := by
  have flag : ∀ c : Bool, c.toUInt16.toNat = c.toNat := by decide
  have fits : m.params.toNat + m.hasThis.toNat < UInt16.size := by
    have most := m.params.toNat_lt
    cases receiver : m.hasThis with
    | false => simpa using most
    | true =>
      have below : m.params.toNat ≠ 65535 := by
        intro full
        rw [countable (UInt16.toNat_inj.mp full)] at receiver
        cases receiver
      simp only [Bool.toNat_true, UInt16.size]
      omega
  exact ⟨_, if_pos fits, rfl, flag m.returns⟩

namespace Instruction

variable {insn : Instruction}

theorem effect_small (plain : insn.method? = none ∨
    insn.opcode ≠ .call ∧ insn.opcode ≠ .callvirt ∧ insn.opcode ≠ .newobj) :
    insn.stackEffect.pops ≤ 2 ∧ insn.stackEffect.pushes ≤ 2 := by
  unfold stackEffect
  split <;> simp_all

theorem Countable.wordEffect (countable : insn.Countable) :
    ∃ effect, insn.wordEffect? = some effect ∧ effect.pops.toNat = insn.stackEffect.pops ∧
      effect.pushes.toNat = insn.stackEffect.pushes := by
  unfold wordEffect?
  split
  · next m op found =>
    rw [stackEffect, op]
    simp only [found]
    exact MethodRef.wordCallEffect_some (countable (.inl op) m found)
  · next m op found =>
    rw [stackEffect, op]
    simp only [found]
    exact MethodRef.wordCallEffect_some (countable (.inr op) m found)
  · next m op found =>
    rw [stackEffect, op]
    simp only [found]
    exact ⟨_, rfl, rfl, rfl⟩
  · next call virt new =>
    have small : insn.stackEffect.pops ≤ 2 ∧ insn.stackEffect.pushes ≤ 2 := by
      apply effect_small
      cases found : insn.method? with
      | none => exact .inl rfl
      | some m => exact .inr ⟨(call m · found), (virt m · found), (new m · found)⟩
    refine ⟨_, rfl, ?_, ?_⟩
    · exact UInt16.toNat_ofNat_of_lt' (by simp only [UInt16.size]; omega)
    · exact UInt16.toNat_ofNat_of_lt' (by simp only [UInt16.size]; omega)

end Instruction

/-! ### Steps -/

abbrev WordState := Nat × UInt32

def widen (s : WordState) : State := (s.1, s.2.toNat)

namespace Body

def wordTargetStates (b : Body) (index : Nat) (depth : UInt32) :
    List Label → Except StackError (List WordState)
  | [] => .ok []
  | l :: ls =>
    match b.target? l with
    | none => .error (.unboundLabel index l)
    | some target =>
      match wordTargetStates b index depth ls with
      | .error e => .error e
      | .ok states => .ok ((target, depth) :: states)

def wordOnward (b : Body) (insn : Instruction) (index : Nat) (depth after : UInt32) :
    Except StackError (List WordState) :=
  match insn.opcode with
  | .ret =>
    if depth = b.returns.toUInt32 then .ok []
    else .error (.badReturn index depth.toNat b.returns.toUInt32.toNat)
  | .throw | .endfinally => .ok []
  | op =>
    let atTarget := if op = .leave then 0 else after
    match b.wordTargetStates index atTarget insn.branchTargets with
    | .error e => .error e
    | .ok states =>
      if op.fallsThrough then
        if b.code.length ≤ index + 1 then .error (.fallsOffEnd index)
        else .ok ((index + 1, after) :: states)
      else .ok states

/-- The states that a given instruction at `index` leads to from a depth, unless a result does not
fit. -/
def wordSuccessorsOf (b : Body) (insn : Instruction) (index : Nat) (depth : UInt32) :
    Option (Except StackError (List WordState)) := do
  let effect ← insn.wordEffect?
  let pops := effect.pops.toUInt32
  if depth < pops then return .error (.underflow index insn.text)
  let left ← wordDifference? depth pops
  let after ← wordSum? left effect.pushes.toUInt32
  return b.wordOnward insn index depth after

variable {b : Body} {insn : Instruction} {i : Nat} {d : UInt32}

theorem targetStates_widen (b : Body) (i : Nat) (d : UInt32) (ls : List Label) :
    b.targetStates i d.toNat ls = (b.wordTargetStates i d ls).map (·.map widen) := by
  induction ls with
  | nil => rfl
  | cons l ls ih =>
    rw [targetStates, wordTargetStates]
    cases b.target? l with
    | none => rfl
    | some target =>
      rw [ih]
      cases b.wordTargetStates i d ls <;> rfl

theorem onward_widen (b : Body) (insn : Instruction) (i : Nat) {after : UInt32}
    (enough : insn.stackEffect.pops ≤ d.toNat) (behind : after.toNat = depthAfter insn d.toNat) :
    b.successorsOf insn i d.toNat = (b.wordOnward insn i d after).map (·.map widen) := by
  have flag : b.returns.toUInt32.toNat = b.returns.toNat := by cases b.returns <;> rfl
  have returned : d = b.returns.toUInt32 ↔ d.toNat = b.returns.toNat := by
    rw [← UInt32.toNat_inj, flag]
  unfold depthAfter at behind
  unfold successorsOf wordOnward
  simp only [if_neg (Nat.not_lt.mpr enough), returned, flag, ← behind]
  -- the three opcodes that lead nowhere, then all the others
  by_cases ret : insn.opcode = .ret
  · simp only [ret]
    split <;> rfl
  by_cases throws : insn.opcode = .throw
  · simp only [throws, Except.map, List.map_nil]
  by_cases ends : insn.opcode = .endfinally
  · simp only [ends, Except.map, List.map_nil]
  have target : (if insn.opcode = .leave then 0 else after.toNat) =
      (if insn.opcode = .leave then 0 else after).toNat := by
    split <;> rfl
  simp only [target, targetStates_widen]
  cases b.wordTargetStates i _ insn.branchTargets with
  | error e => rfl
  | ok states =>
    simp only [Except.map]
    split
    · split <;> rfl
    · rfl

theorem successorsOf_widen (countable : insn.Countable) (room : d.toNat + 1 < UInt32.size) :
    ∃ answer, b.wordSuccessorsOf insn i d = some answer ∧
      b.successorsOf insn i d.toNat = answer.map (·.map widen) := by
  obtain ⟨effect, counted, pops, pushes⟩ := countable.wordEffect
  rw [← UInt16.toNat_toUInt32] at pops pushes
  have raised := pushes_le insn
  by_cases short : d.toNat < insn.stackEffect.pops
  · refine ⟨.error (.underflow i insn.text), ?_, by simp only [successorsOf, if_pos short]; rfl⟩
    have short' : d < effect.pops.toUInt32 := by
      rw [UInt32.lt_iff_toNat_lt, pops]
      exact short
    simp [wordSuccessorsOf, counted, short']
  · have enough : effect.pops.toUInt32.toNat ≤ d.toNat := by omega
    obtain ⟨left, subtracted, rest⟩ := wordDifference_of_le enough
    have fits : left.toNat + effect.pushes.toUInt32.toNat < UInt32.size := by omega
    obtain ⟨after, added, sum⟩ := wordSum_of_lt fits
    have enough' : ¬d < effect.pops.toUInt32 := by
      rw [UInt32.lt_iff_toNat_lt, pops]
      exact short
    refine ⟨b.wordOnward insn i d after, ?_, b.onward_widen insn i (by omega) ?_⟩
    · simp [wordSuccessorsOf, counted, enough', subtracted, added]
    · unfold depthAfter
      omega

/-! ### Explorations -/

/-- An exploration in machine words, with the depths it recorded, also where it fails. It does not
come back if a result does not fit, an index lies outside of the body, or `fuel` runs out before its
work. -/
def wordExplore (b : Body) : (fuel : Nat) → List WordState → List (Option UInt32) →
    Option (Except StackError Unit × List (Option UInt32))
  | _, [], depths => some (.ok (), depths)
  | 0, _ :: _, _ => none
  | fuel + 1, (index, depth) :: work, depths =>
    match b.code[index]?, depths[index]? with
    | some _, some (some known) =>
      if known = depth then b.wordExplore fuel work depths
      else some (.error (.mismatch index known.toNat depth.toNat), depths)
    | some insn, some none =>
      let recorded := depths.set index (some depth)
      match b.wordSuccessorsOf insn index depth with
      | none => none
      | some (.error e) => some (.error e, recorded)
      | some (.ok states) => b.wordExplore fuel (states.reverse ++ work) recorded
    | _, _ => none

def wordDepths (b : Body) : Option (Except StackError Unit × List (Option UInt32)) :=
  match b.code with
  | [] => some (.ok (), [])
  | _ => b.wordExplore b.explorationBound [(0, 0)] (b.code.map fun _ => none)

def widenDepths (depths : List (Option UInt32)) : List (Option Nat) :=
  depths.map (·.map UInt32.toNat)

theorem get_widenDepths (depths : List (Option UInt32)) (i : Nat) :
    (widenDepths depths)[i]? = depths[i]?.map (·.map UInt32.toNat) :=
  List.getElem?_map

theorem set_widenDepths (depths : List (Option UInt32)) (i : Nat) (d : UInt32) :
    widenDepths (depths.set i (some d)) = (widenDepths depths).set i (some d.toNat) :=
  List.map_set

def widenExploration (work : List WordState) (depths : List (Option UInt32)) : Exploration :=
  ⟨work.map widen, widenDepths depths⟩

/-- No call of the body has 65535 parameters and a receiver. -/
def Countable (b : Body) : Prop := ∀ insn ∈ b.code, insn.Countable

instance (b : Body) : Decidable b.Countable :=
  inferInstanceAs (Decidable (∀ insn ∈ b.code, insn.Countable))

/-- An exploration in machine words has the outcome of the exploration in numbers, and records no
depth that is greater than the number of instructions. -/
def ExploresAlike (b : Body) (fuel : Nat) (work : List WordState) (depths : List (Option UInt32)) :
    Prop :=
  ∃ verdict recorded, b.wordExplore fuel work depths = some (verdict, recorded) ∧
    b.explore fuel (work.map widen) (widenDepths depths) =
      verdict.map (fun _ => widenDepths recorded) ∧
    ∀ d, some d ∈ recorded → d.toNat ≤ b.code.length

section Exploring

variable {work : List WordState} {depths : List (Option UInt32)}

theorem depths_small (explored : b.Explored (work.map widen) (widenDepths depths))
    (shallow : Shallow (widenExploration work depths)) {d : UInt32} (recorded : some d ∈ depths) :
    d.toNat ≤ b.code.length := by
  have within := explored.within (x := widenExploration work depths) shallow
  obtain ⟨i, found⟩ := List.mem_iff_getElem?.mp recorded
  apply within.recorded (i := i)
  show (widenDepths depths)[i]? = _
  rw [get_widenDepths, found]
  rfl

theorem discover_widen {states : List WordState} (code : b.code[i]? = some insn)
    (fresh : depths[i]? = some none)
    (runs : b.successorsOf insn i d.toNat = .ok (states.map widen)) :
    b.Takes (widenExploration ((i, d) :: work) depths)
      (widenExploration (states.reverse ++ work) (depths.set i (some d))) := by
  have fresh' : (widenDepths depths)[i]? = some none := by
    rw [get_widenDepths, fresh]
    rfl
  have joined : ((states.reverse ++ work).map widen).Perm
      (states.map widen ++ work.map widen) := by
    rw [List.map_append]
    exact ((List.reverse_perm states).map widen).append_right _
  unfold widenExploration
  rw [set_widenDepths]
  exact .discover (.refl _) fresh' code runs joined

theorem exploresAlike (countable : b.Countable) (short : b.code.length + 1 < UInt32.size)
    {fuel : Nat} (enough : work.length + pending b.code (widenDepths depths) ≤ fuel)
    (explored : b.Explored (work.map widen) (widenDepths depths))
    (shallow : Shallow (widenExploration work depths)) : b.ExploresAlike fuel work depths := by
  induction fuel generalizing work depths with
  | zero =>
    obtain rfl : work = [] := List.length_eq_zero_iff.mp (by omega)
    exact ⟨.ok (), depths, by simp [wordExplore], by simp [explore, Except.map],
      fun _ => depths_small explored shallow⟩
  | succ fuel ih =>
    rcases work with _ | ⟨⟨i, d⟩, work⟩
    · exact ⟨.ok (), depths, by simp [wordExplore], by simp [explore, Except.map],
        fun _ => depths_small explored shallow⟩
    -- what one state taken keeps carries over to the rest of the run
    have onward : ∀ {work' : List WordState} {depths' : List (Option UInt32)},
        b.Takes (widenExploration ((i, d) :: work) depths) (widenExploration work' depths') →
        b.ExploresAlike fuel work' depths' := by
      intro work' depths' taken
      have less := taken.decreases
      have explored' := taken.explored explored
      have shallow' := taken.shallow shallow
      simp only [widenExploration, List.length_map] at less
      exact ih (by omega) explored' shallow'
    obtain ⟨insn, entry, code, found⟩ := explored.at_work
    obtain ⟨entry, found', rfl⟩ := Option.map_eq_some_iff.mp (get_widenDepths depths i ▸ found)
    cases entry with
    | some known =>
      by_cases same : known = d
      · subst same
        obtain ⟨verdict, recorded, ran, same, bound⟩ := onward (.known (.refl _) found)
        refine ⟨verdict, recorded, ?_, ?_, bound⟩
        · simpa [wordExplore, code, found'] using ran
        · simpa [explore, found, widen] using same
      · have apart : known.toNat ≠ d.toNat := fun eq => same (UInt32.toNat_inj.mp eq)
        refine ⟨.error (.mismatch i known.toNat d.toNat), depths, ?_, ?_,
          fun _ => depths_small explored shallow⟩
        · simp [wordExplore, code, found', same]
        · simp [explore, found, widen, apart, Except.map]
    | none =>
      have within := explored.within (x := widenExploration ((i, d) :: work) depths) shallow
      have here : d.toNat ≤ b.code.length := within.depth (widen (i, d)) List.mem_cons_self
      obtain ⟨answer, ran, same⟩ := successorsOf_widen (b := b) (i := i)
        (countable insn (List.mem_of_getElem? code)) (d := d) (by omega)
      cases answer with
      | error e =>
        refine ⟨.error e, depths.set i (some d), ?_, ?_, ?_⟩
        · simp [wordExplore, code, found', ran]
        · simp [explore, found, widen, successors_at code, same, Except.map]
        · intro e recorded
          rcases List.mem_or_eq_of_mem_set recorded with old | new
          · exact depths_small explored shallow old
          · obtain rfl := Option.some.inj new
            exact here
      | ok states =>
        obtain ⟨verdict, recorded, ran', same', bound⟩ := onward (discover_widen code found' same)
        refine ⟨verdict, recorded, ?_, ?_, bound⟩
        · simpa [wordExplore, code, found', ran] using ran'
        · rw [set_widenDepths, List.map_append, List.map_reverse] at same'
          simpa [explore, found, widen, successors_at code, same, Except.map] using same'

end Exploring

/-! ### Walks -/

/-- A walk in machine words: what came of it, the states it visited, also where it fails, and the
questions it asked. -/
structure WordWalk where
  verdict : Except StackError Unit
  visited : List WordState
  asked : List Question

def WordWalk.widen (w : WordWalk) : Walk :=
  ⟨w.verdict.map fun _ => w.visited.map Interpose.widen, w.asked⟩

def wordGoesOn (decide : Decision) (asked : List Question) (index : Nat) (insn : Instruction)
    (states : List WordState) : Option WordState :=
  if insn.isConditional then
    let onward := states.find? fun s => s.1 = index + 1
    let target := states.find? fun s => s.1 ≠ index + 1
    if decide asked (index, insn) then target.or onward else onward
  else states.head?

/-- The visits from a state on. The walk does not come back if a result does not fit or an index lies
outside of the body. -/
def wordWalkFrom (b : Body) (decide : Decision) : (room : Nat) → WordState → List Question →
    Option WordWalk
  | 0, state, asked => some ⟨.ok (), [state], asked⟩
  | room + 1, (index, depth), asked =>
    match b.code[index]? with
    | none => none
    | some insn =>
      match b.wordSuccessorsOf insn index depth with
      | none => none
      | some (.error e) => some ⟨.error e, [(index, depth)], asked⟩
      | some (.ok states) =>
        let next := wordGoesOn decide asked index insn states
        let asked := if insn.isConditional then asked ++ [(index, insn)] else asked
        match next with
        | none => some ⟨.ok (), [(index, depth)], asked⟩
        | some state =>
          (wordWalkFrom b decide room state asked).map fun w =>
            { w with visited := (index, depth) :: w.visited }

def wordWalk (b : Body) (decide : Decision) : Option WordWalk :=
  match b.code with
  | [] => some ⟨.ok (), [], []⟩
  | _ => b.wordWalkFrom decide (8 * b.code.length) (0, 0) []

variable {decide : Decision}

theorem goesOn_widen (decide : Decision) (asked : List Question) (i : Nat) (insn : Instruction)
    (states : List WordState) : goesOn decide asked i insn (states.map widen) =
      (wordGoesOn decide asked i insn states).map widen := by
  have found : ∀ (p : Nat → Bool), (states.map widen).find? (fun s => p s.1) =
      (states.find? fun s => p s.1).map widen := fun p => List.find?_map
  have onward := found fun j => j = i + 1
  have target := found fun j => j ≠ i + 1
  unfold goesOn wordGoesOn
  split
  · simp only [chosen]
    rw [onward, target]
    split
    · exact (Option.map_or).symm
    · rfl
  · exact List.head?_map

/-- A walk in machine words is the walk in numbers, and no depth that it visits is above a bound. -/
def WalksAlike (b : Body) (decide : Decision) (room : Nat) (s : WordState) (asked : List Question)
    (bound : Nat) : Prop :=
  ∃ w, b.wordWalkFrom decide room s asked = some w ∧
    b.walkFrom decide room (widen s) asked = w.widen ∧ ∀ t ∈ w.visited, t.2.toNat ≤ bound

/-- A walk that has room for all it may still put on the stack never leaves the machine words. -/
theorem walksAlike (countable : b.Countable) {room bound : Nat} {s : WordState}
    (asked : List Question) (low : bound + 1 < UInt32.size) (reached : b.Reaches (widen s))
    (fits : s.2.toNat + room ≤ bound) : b.WalksAlike decide room s asked bound := by
  induction room generalizing s asked with
  | zero =>
    refine ⟨_, rfl, rfl, ?_⟩
    simpa using fits
  | succ room ih =>
    obtain ⟨i, d⟩ := s
    have here : d.toNat ≤ bound := by simp only at fits; omega
    obtain ⟨insn, code⟩ : ∃ insn, b.code[i]? = some insn :=
      ⟨_, List.getElem?_eq_getElem reached.lt⟩
    obtain ⟨answer, ran, same⟩ := successorsOf_widen (b := b) (i := i)
      (countable insn (List.mem_of_getElem? code)) (d := d) (by omega)
    cases answer with
    | error e =>
      refine ⟨⟨.error e, [(i, d)], asked⟩, ?_, ?_, by simpa using here⟩
      · simp [wordWalkFrom, code, ran]
      · simp [walkFrom, widen, code, same, WordWalk.widen, Except.map]
    | ok states =>
      have ahead := goesOn_cases decide asked code same
      have follows : b.walkFrom decide (room + 1) (i, d.toNat) asked = _ := walkFrom_succ code same
      rw [goesOn_widen] at ahead follows
      generalize questions : (if insn.isConditional then asked ++ [(i, insn)] else asked) = asked'
        at follows
      cases next : wordGoesOn decide asked i insn states with
      | none =>
        rw [next] at follows
        refine ⟨⟨.ok (), [(i, d)], asked'⟩, ?_, follows, by simpa using here⟩
        simp [wordWalkFrom, code, ran, next, questions]
      | some t =>
        rw [next] at ahead follows
        obtain ⟨-, -, stops⟩ | ⟨_, onward, leads, -⟩ := ahead
        · cases stops
        obtain rfl := Option.some.inj onward
        -- one more value at most, and one visit less to come
        have raised : t.2.toNat ≤ d.toNat + 1 := leads.depth
        obtain ⟨w, walked, alike, most⟩ := ih asked' (.step reached leads) (by simp only at fits; omega)
        refine ⟨{ w with visited := (i, d) :: w.visited }, ?_, ?_, ?_⟩
        · simp [wordWalkFrom, code, ran, next, questions, walked]
        · refine follows.trans ?_
          simp only [Option.map_some, alike]
          obtain ⟨verdict, visited, asked⟩ := w
          cases verdict <;> rfl
        · exact List.forall_mem_cons.mpr ⟨here, most⟩

/-! ### Whole runs -/

theorem wordDepths_alike (countable : b.Countable) (short : b.code.length + 1 < UInt32.size) :
    ∃ verdict depths, b.wordDepths = some (verdict, depths) ∧
      b.stackDepths = verdict.map (fun _ => widenDepths depths) ∧
      ∀ d, some d ∈ depths → d.toNat ≤ b.code.length := by
  by_cases nothing : b.code = []
  · refine ⟨.ok (), [], ?_, ?_, nofun⟩
    · simp [wordDepths, nothing]
    · simp [stackDepths, nothing, Except.map, widenDepths]
  · have fresh : widenDepths (b.code.map fun _ => none) = b.code.map fun _ => none := by
      simp [widenDepths]
    have start : widenExploration [(0, 0)] (b.code.map fun _ => none) = .start b := by
      simp only [widenExploration, Exploration.start, fresh]
      simp [widen, nothing]
    have explored := start_explored b
    rw [← start] at explored
    have enough : 1 + pending b.code (widenDepths (b.code.map fun _ => none)) ≤
        b.explorationBound := by
      rw [fresh, pending_none]
      exact Nat.le_refl b.explorationBound
    obtain ⟨verdict, depths, ran, same, small⟩ :=
      exploresAlike countable short enough explored (start ▸ start_shallow b)
    refine ⟨verdict, depths, ?_, ?_, small⟩
    · unfold wordDepths
      split
      · contradiction
      · exact ran
    · rw [stackDepths_explore (List.length_pos_iff.mpr nothing), ← same, fresh]
      rfl

theorem wordWalk_alike (decide : Decision) (countable : b.Countable)
    (short : 8 * b.code.length + 1 < UInt32.size) :
    ∃ w, b.wordWalk decide = some w ∧ b.walk decide = w.widen ∧
      ∀ s ∈ w.visited, s.2.toNat ≤ 8 * b.code.length := by
  by_cases nothing : b.code = []
  · refine ⟨⟨.ok (), [], []⟩, ?_, ?_, nofun⟩
    · simp [wordWalk, nothing]
    · simp [walk, nothing, WordWalk.widen, Except.map]
  · have nonempty := List.length_pos_iff.mpr nothing
    obtain ⟨w, walked, alike, most⟩ :
        b.WalksAlike decide (8 * b.code.length) (0, 0) [] (8 * b.code.length) :=
      walksAlike countable [] short (.entry nonempty) (Nat.le_of_eq (Nat.zero_add _))
    refine ⟨w, ?_, ?_, most⟩
    · unfold wordWalk
      split
      · contradiction
      · exact walked
    · rw [walk_eq nonempty, ← alike]
      rfl

/-- In a body with less than 2 ^ 28 instructions, none of them a call with 65535 parameters and a
receiver, the depths of a stack stay machine words. The exploration and every walk come back, so that
no difference on their way was negative and no sum too great, and they give what they give in numbers.
No depth is recorded, not even by an exploration that fails, that is greater than the number of
instructions, and none is visited that is greater than eight times that number and one. -/
theorem depths_in_range (countable : b.Countable) (short : b.code.length < Nat.pow 2 28) :
    (∃ verdict depths, b.wordDepths = some (verdict, depths) ∧
      b.stackDepths = verdict.map (fun _ => widenDepths depths) ∧
      ∀ d, some d ∈ depths → d.toNat ≤ b.code.length) ∧
    ∀ decide, ∃ w, b.wordWalk decide = some w ∧ b.walk decide = w.widen ∧
      ∀ s ∈ w.visited, s.2.toNat ≤ 8 * b.code.length + 1 := by
  have room : 16 * Nat.pow 2 28 = UInt32.size := rfl
  constructor
  · apply wordDepths_alike countable
    omega
  · intro decide
    have fits : 8 * b.code.length + 1 < UInt32.size := by omega
    obtain ⟨w, walked, alike, most⟩ := wordWalk_alike decide countable fits
    refine ⟨w, walked, alike, ?_⟩
    intro s visited
    exact Nat.le_succ_of_le (most s visited)

/-- A call that takes one value more than sixteen bits can count. -/
def crowded : Body :=
  ⟨[.ldarg 0, .call ⟨⟨"Cart"⟩, "Fill", 65535, true, false⟩, .ret], .empty, false⟩

example : ¬crowded.Countable ∧ crowded.wordDepths = none := by decide

/-- What a call with a receiver and one argument gives is returned. -/
def forwarding : Body :=
  ⟨[.ldarg 0, .ldarg 1, .callvirt ⟨⟨"Cart"⟩, "Total", 1, true, true⟩, .ret], .empty, true⟩

theorem forwarding_depths_in_range :
    forwarding.Countable ∧ forwarding.code.length < Nat.pow 2 28 ∧
    (∃ depths, depths = [some 0, some 1, some 2, some 1] ∧
      forwarding.wordDepths = some (.ok (), depths) ∧
      forwarding.stackDepths = .ok (widenDepths depths) ∧
      ∀ d, some d ∈ depths → d.toNat ≤ 4) ∧
    ∃ w, forwarding.wordWalk (Decision.ofScript []) = some w ∧
      forwarding.walk (Decision.ofScript []) = w.widen ∧
      w.visited = [(0, 0), (1, 1), (2, 2), (3, 1)] ∧ ∀ s ∈ w.visited, s.2.toNat ≤ 33 := by
  have countable : forwarding.Countable := by decide
  have short : forwarding.code.length < Nat.pow 2 28 := by decide
  obtain ⟨⟨verdict, depths, ran, alike, small⟩, walks⟩ := depths_in_range countable short
  have done : forwarding.wordDepths = some (.ok (), [some 0, some 1, some 2, some 1]) := by decide
  obtain ⟨rfl, rfl⟩ : verdict = .ok () ∧ depths = [some 0, some 1, some 2, some 1] := by
    simpa using ran.symm.trans done
  obtain ⟨w, walked, same, most⟩ := walks (Decision.ofScript [])
  refine ⟨countable, short, ⟨_, rfl, ran, alike, small⟩, w, walked, same, ?_, most⟩
  have path : (forwarding.wordWalk (Decision.ofScript [])).map (·.visited) =
      some [(0, 0), (1, 1), (2, 2), (3, 1)] := by decide
  rw [walked] at path
  exact Option.some.inj path

end Body

end Interpose
