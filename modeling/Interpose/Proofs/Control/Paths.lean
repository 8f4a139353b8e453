import Interpose.Control.Walk
import Interpose.Proofs.Control.Exploration

/-!
Single paths beside the exploration of all of them. A walk goes from state to state by the steps of
control, each branch the way the decision says, and stops only where control does or where it is cut
off. All it can fail with is a violation that control comes to. So on a body whose depths are known
it does not fail, whatever is decided, and sees no other depths than these.
-/

set_option autoImplicit false
set_option relaxedAutoImplicit false

namespace Interpose

def Instruction.isConditional (insn : Instruction) : Bool :=
  insn.opcode.isBranch && insn.opcode.fallsThrough

namespace Body

variable {b : Body} {decide : Decision}

/-- A path from a state on, with the questions asked before it and after it. It may stop anywhere. A
branch that is not taken goes on to the next instruction, and one that is taken does so only if it
leads nowhere else. -/
inductive Guided (b : Body) (decide : Decision) :
    List Question → State → List State → List Question → Prop
  | stop (asked : List Question) (s : State) : Guided b decide asked s [s] asked
  | plain {asked after : List Question} {i d : Nat} {t : State} {path : List State}
      {insn : Instruction} : b.code[i]? = some insn → insn.isConditional = false →
      b.Leads (i, d) t → Guided b decide asked t path after →
      Guided b decide asked (i, d) ((i, d) :: path) after
  | branch {asked after : List Question} {i d : Nat} {t : State} {path : List State}
      {insn : Instruction} : b.code[i]? = some insn → insn.isConditional = true →
      b.Leads (i, d) t → (decide asked (i, insn) = false → t.1 = i + 1) →
      (decide asked (i, insn) = true → t.1 = i + 1 → ∀ u, b.Leads (i, d) u → u.1 = i + 1) →
      Guided b decide (asked ++ [(i, insn)]) t path after →
      Guided b decide asked (i, d) ((i, d) :: path) after

/-! ### One step -/

theorem chosen_next (i e : Nat) (taken : Bool) (ts : List State) :
    ∃ t, chosen i taken ((i + 1, e) :: ts) = some t ∧ t ∈ (i + 1, e) :: ts ∧
      (taken = false → t.1 = i + 1) ∧
      (taken = true → t.1 = i + 1 → ∀ u ∈ (i + 1, e) :: ts, u.1 = i + 1) := by
  cases taken with
  | false => exact ⟨(i + 1, e), by simp [chosen]⟩
  | true =>
    cases found : ts.find? fun s => !decide (s.1 = i + 1) with
    | none =>
      have only : ∀ u ∈ ts, u.1 = i + 1 := by simpa using found
      exact ⟨(i + 1, e), by simp [chosen, found], List.mem_cons_self, nofun,
        fun _ _ => List.forall_mem_cons.mpr ⟨rfl, only⟩⟩
    | some t =>
      have apart : t.1 ≠ i + 1 := by simpa using List.find?_some found
      exact ⟨t, by simp [chosen, found],
        List.mem_cons_of_mem _ (List.mem_of_find?_eq_some found), nofun,
        fun _ next => absurd next apart⟩

def goesOn (decide : Decision) (asked : List Question) (i : Nat) (insn : Instruction)
    (states : List State) : Option State :=
  if insn.isConditional then chosen i (decide asked (i, insn)) states else states.head?

theorem walkFrom_succ {room i d : Nat} {asked : List Question} {insn : Instruction}
    {states : List State} (code : b.code[i]? = some insn)
    (runs : b.successorsOf insn i d = .ok states) :
    b.walkFrom decide (room + 1) (i, d) asked =
      match goesOn decide asked i insn states with
      | none => ⟨.ok [(i, d)], if insn.isConditional then asked ++ [(i, insn)] else asked⟩
      | some t =>
        let rest := b.walkFrom decide room t
          (if insn.isConditional then asked ++ [(i, insn)] else asked)
        ⟨rest.path.map ((i, d) :: ·), rest.asked⟩ := by
  simp only [walkFrom, code, runs]
  rfl

theorem goesOn_cases (decide : Decision) (asked : List Question) {i d : Nat} {insn : Instruction}
    {states : List State} (code : b.code[i]? = some insn)
    (runs : b.successorsOf insn i d = .ok states) :
    (states = [] ∧ insn.isConditional = false ∧ goesOn decide asked i insn states = none) ∨
    ∃ t, goesOn decide asked i insn states = some t ∧ b.Leads (i, d) t ∧
      ∀ {path : List State} {after : List Question}, b.Guided decide
        (if insn.isConditional then asked ++ [(i, insn)] else asked) t path after →
        b.Guided decide asked (i, d) ((i, d) :: path) after := by
  have leads_iff : ∀ u, b.Leads (i, d) u ↔ u ∈ states := by
    intro u
    simp [Leads, successors_at code, runs]
  cases conditional : insn.isConditional with
  | false =>
    rcases states with _ | ⟨t, states⟩
    · exact .inl ⟨rfl, rfl, by simp [goesOn, conditional]⟩
    · have leads := (leads_iff t).mpr List.mem_cons_self
      exact .inr ⟨t, by simp [goesOn, conditional], leads, fun rest =>
        .plain code conditional leads (by simpa using rest)⟩
  | true =>
    obtain ⟨-, falls⟩ := Bool.and_eq_true _ _ ▸ conditional
    obtain ⟨-, -, -, ts, -, rfl⟩ := successorsOf_iff.mp runs
    simp only [falls, if_true, List.singleton_append] at leads_iff ⊢
    obtain ⟨t, next, member, missed, taken⟩ :=
      chosen_next i (depthAfter insn d) (decide asked (i, insn)) ts
    have leads := (leads_iff t).mpr member
    refine .inr ⟨t, by simpa [goesOn, conditional] using next, leads, fun rest => ?_⟩
    exact .branch code conditional leads missed
      (fun yes there u way => taken yes there u ((leads_iff u).mp way)) (by simpa using rest)

/-! ### Paths -/

section Guided

variable {asked after : List Question} {s : State} {path : List State}

theorem Guided.starts (guided : b.Guided decide asked s path after) : path.head? = some s := by
  cases guided <;> rfl

theorem Guided.chain (guided : b.Guided decide asked s path after) : path.IsChain b.Leads := by
  have cons : ∀ {s t : State} {path : List State} {asked after : List Question}, b.Leads s t →
      b.Guided decide asked t path after → path.IsChain b.Leads → (s :: path).IsChain b.Leads := by
    intro s t path asked after leads rest chain
    obtain ⟨tail, rfl⟩ := List.head?_eq_some_iff.mp rest.starts
    exact .cons_cons leads chain
  induction guided with
  | stop asked s => exact .singleton s
  | plain _ _ leads rest ih => exact cons leads rest ih
  | branch _ _ leads _ _ rest ih => exact cons leads rest ih

theorem Guided.reaches (guided : b.Guided decide asked s path after) (reached : b.Reaches s) :
    ∀ t ∈ path, b.Reaches t := by
  induction guided with
  | stop asked s => exact fun t member => List.mem_singleton.mp member ▸ reached
  | plain _ _ leads _ ih | branch _ _ leads _ _ _ ih =>
    exact List.forall_mem_cons.mpr ⟨reached, ih (.step reached leads)⟩

end Guided

theorem walkFrom_cases (decide : Decision) (room : Nat) {s : State} (reached : b.Reaches s)
    (asked : List Question) :
    match (b.walkFrom decide room s asked).path with
    | .ok path => b.Guided decide asked s path (b.walkFrom decide room s asked).asked ∧
        path.length ≤ room + 1 ∧
        (path.length < room + 1 → ∀ last, path.getLast? = some last →
          b.successors last.1 last.2 = .ok [])
    | .error e => b.Violates e := by
  induction room generalizing s asked with
  | zero => exact ⟨.stop asked s, by simp, by simp⟩
  | succ room ih =>
    obtain ⟨i, d⟩ := s
    obtain ⟨insn, code⟩ : ∃ insn, b.code[i]? = some insn :=
      ⟨_, List.getElem?_eq_getElem reached.lt⟩
    cases runs : b.successorsOf insn i d with
    | error e =>
      simp only [walkFrom, code, runs]
      exact reached.violates code runs
    | ok states =>
      rw [walkFrom_succ code runs]
      rcases goesOn_cases decide asked code runs with
        ⟨rfl, plain, stops⟩ | ⟨t, next, leads, onward⟩
      · simp only [stops, plain, Bool.false_eq_true, if_false]
        exact ⟨.stop asked (i, d), by simp, fun _ last final =>
          Option.some.inj final ▸ (successors_at code).trans runs⟩
      · simp only [next]
        have rest := ih (.step reached leads)
          (if insn.isConditional then asked ++ [(i, insn)] else asked)
        generalize b.walkFrom decide room t _ = walk at rest ⊢
        obtain ⟨path, asked⟩ := walk
        cases path with
        | error e => exact rest
        | ok path =>
          obtain ⟨guided, most, ends⟩ := rest
          obtain ⟨tail, rfl⟩ := List.head?_eq_some_iff.mp guided.starts
          refine ⟨onward guided, by simpa using most, fun short last final => ?_⟩
          exact ends (by simpa using short) last (by simpa using final)

/-! ### Walks from the entry -/

theorem walk_eq (nonempty : 0 < b.code.length) :
    b.walk decide = b.walkFrom decide (8 * b.code.length) (0, 0) [] := by
  cases code : b.code with
  | nil => simp [code] at nonempty
  | cons insn rest => simp [walk, code]

/-- A path from the entry that follows control, with eight states for each instruction and one more
unless control stops before that. -/
structure Walked (b : Body) (path : List State) : Prop where
  starts : path.head? = if b.code = [] then none else some (0, 0)
  steps : path.IsChain b.Leads
  most : path.length ≤ 8 * b.code.length + 1
  ends : path.length < 8 * b.code.length + 1 →
    ∀ last, path.getLast? = some last → b.successors last.1 last.2 = .ok []

/-- On a body that the exploration finds depths for, every walk gives a path, whatever is decided and
on whatever grounds. It follows control and the decision from the entry on, and comes to no
instruction with another depth than the one found. A walk can fail only with a violation that
control comes to, and then the exploration fails too. -/
theorem walk_within_depths (b : Body) (decide : Decision) :
    (∀ depths, b.stackDepths = .ok depths → ∃ path, (b.walk decide).path = .ok path ∧
      b.Walked path ∧ (∀ s ∈ path, depths[s.1]? = some (some s.2)) ∧
      (b.code ≠ [] → b.Guided decide [] (0, 0) path (b.walk decide).asked)) ∧
    ∀ e, (b.walk decide).path = .error e → b.Violates e ∧ ∃ f, b.stackDepths = .error f := by
  by_cases nothing : b.code = []
  · have done : b.walk decide = ⟨.ok [], []⟩ := by simp [walk, nothing]
    rw [done]
    exact ⟨fun depths _ => ⟨[], rfl, ⟨by simp [nothing], .nil, by simp, nofun⟩, by simp,
      fun some => absurd nothing some⟩, nofun⟩
  have nonempty := List.length_pos_iff.mpr nothing
  have walked := walkFrom_cases decide (8 * b.code.length) (.entry nonempty) []
  rw [← walk_eq nonempty] at walked
  cases found : (b.walk decide).path with
  | error e =>
    simp only [found] at walked
    have fails : ∀ depths, b.stackDepths ≠ .ok depths := fun depths done =>
      walked.not_disciplined (stackDepths_iff.mp done).1
    refine ⟨fun depths done => absurd done (fails depths), ?_⟩
    rintro _ ⟨rfl⟩
    refine ⟨walked, ?_⟩
    cases explored : b.stackDepths with
    | error f => exact ⟨f, rfl⟩
    | ok depths => exact absurd explored (fails depths)
  | ok path =>
    simp only [found] at walked
    obtain ⟨guided, most, ends⟩ := walked
    refine ⟨fun depths done => ⟨path, rfl, ⟨?_, guided.chain, most, ends⟩, ?_,
      fun _ => guided⟩, nofun⟩
    · rw [guided.starts, if_neg nothing]
    · obtain ⟨-, -, recorded⟩ := stackDepths_iff.mp done
      exact fun s member => (recorded s.1 s.2).mpr (guided.reaches (.entry nonempty) s member)

def leftover : Body := ⟨[.ldarg 0, .ret], .empty, false⟩

theorem loop_walk_within_depths : ∃ path,
    loop.stackDepths = .ok [some 0, some 1, some 0, some 0, none] ∧
    (loop.walk (Decision.ofScript [false, true])).path = .ok path ∧
    path = [(0, 0), (1, 1), (2, 0), (0, 0), (1, 1), (3, 0)] ∧ loop.Walked path ∧
    (∀ s ∈ path, [some 0, some 1, some 0, some 0, none][s.1]? = some (some s.2)) ∧
    (leftover.walk (Decision.ofScript [])).path = .error (.badReturn 1 1 0) ∧
    leftover.Violates (.badReturn 1 1 0) := by
  have done : loop.stackDepths = .ok [some 0, some 1, some 0, some 0, none] := by decide
  obtain ⟨path, walked, follows, within, -⟩ :=
    (walk_within_depths loop (Decision.ofScript [false, true])).1 _ done
  have failed : (leftover.walk (Decision.ofScript [])).path = .error (.badReturn 1 1 0) := by decide
  refine ⟨path, done, walked, ?_, follows, within, failed,
    ((walk_within_depths leftover (Decision.ofScript [])).2 _ failed).1⟩
  exact Except.ok.inj (walked.symm.trans (by decide))

end Body

end Interpose
