import Interpose.Proofs.Splice.Inner

/-!
The trial run of a template. A balanced template, lowered in front of two returns, gives a body that
keeps the stack discipline; so every built point that goes into a stream has been rehearsed.
-/

set_option autoImplicit false
set_option relaxedAutoImplicit false

namespace Interpose

namespace Template

variable {loads : Loads} {t : Template} {captures : Nat} {maySkip : Bool}

theorem trialStream_wellFormed : trialStream.WellFormed := by
  refine ⟨by decide, ?_, nofun, ?_⟩
  · decide
  · intro insn l member target
    have ret : insn = .ret := by
      simpa [trialStream, Stream.ofInstructions, Stream.code, Stream.numbered] using member
    rw [ret] at target
    cases target

theorem checkBalance_parts (sound : t.Sound captures maySkip) {point : String}
    (balanced : checkBalance point loads t = .ok ()) :
    ∃ block n name after depths,
      Lowered loads trialStream ⟨0⟩ ⟨1⟩ t block { trialStream with nextLabel := n } name ∧
      ({ trialStream with nextLabel := n } : Stream).Admits block ∧
      ({ trialStream with nextLabel := n } : Stream).Inserted after [] trialStream.cells block ∧
      after.toBody.stackDepths = .ok depths := by
  unfold checkBalance at balanced
  obtain ⟨name, lowered⟩ := lower_lowered loads trialStream ⟨0⟩ ⟨1⟩ t
  generalize t.lower loads trialStream ⟨0⟩ ⟨1⟩ = result at balanced lowered
  obtain ⟨block, defined⟩ := result
  obtain ⟨n, rfl⟩ : ∃ n, defined = { trialStream with nextLabel := n } := ⟨_, lowered.stream⟩
  have some : block.code.isEmpty = false := by
    rw [List.isEmpty_eq_false_iff, ← List.length_pos_iff, lowered.code, code_length]
    exact sound.size_template_pos
  simp only [some, Bool.false_eq_true, if_false] at balanced
  split at balanced
  · cases balanced
  next _ s inserted =>
  split at inserted
  · cases inserted
  next _ span after went =>
  obtain ⟨-, -, rfl⟩ : ∃ u, after.validate = .ok u ∧ after = s := by
    cases valid : after.validate with
    | error e => simp [valid, Except.map] at inserted
    | ok u => exact ⟨u, rfl, by simpa [valid, Except.map] using inserted⟩
  obtain ⟨depths, explored⟩ : ∃ depths, after.toBody.stackDepths = .ok depths := by
    cases explored : after.toBody.stackDepths with
    | error e => simp [Stream.checkStack, Body.checkStack, explored, Except.map] at balanced
    | ok depths => exact ⟨depths, rfl⟩
  have split : Stream.splitAt? ⟨0⟩ ({ trialStream with nextLabel := n } : Stream).cells =
      Option.some ([], trialStream.cells) := rfl
  obtain ⟨admits, committed⟩ := (Stream.insertBefore_iff split).mp went
  have placed := admits.inserted [] trialStream.cells
  rw [committed] at placed
  exact ⟨block, n, name, after, depths, lowered, admits, placed, explored⟩

/-- A balanced template has a body of its own, with the two returns behind it, in which every
reachable state keeps the discipline. -/
theorem checkBalance_ok (sound : t.Sound captures maySkip) {point : String}
    (balanced : checkBalance point loads t = .ok ()) :
    ∃ trial name, t.Hosted loads trial 0 (t.size loads + 1) name ∧
      trial.code[t.size loads]? = some .ret ∧ trial.code[t.size loads + 1]? = some .ret ∧
      trial.returns = false ∧ trial.Disciplined := by
  obtain ⟨block, n, name, after, depths, lowered, admits, placed, explored⟩ :=
    checkBalance_parts sound balanced
  have ok := placed.wellFormed (s := { trialStream with nextLabel := n }) rfl
    (trialStream_wellFormed.renumber n) admits
  have cells : after.cells = [] ++ Stream.numbered 2 (t.code loads name) ++ trialStream.cells := by
    rw [placed.cells, lowered.code]
    rfl
  -- behind the template stand the two cells of the trial stream
  have behind : ∀ x, after.cells[t.size loads + x]? = trialStream.cells[x]? := by
    intro x
    rw [cells, List.nil_append, List.getElem?_append_right (by simp)]
    simp
  have position : ∀ {x : Nat}, x < 2 → after.positions[t.size loads + x]? = some ⟨x⟩ := by
    intro x inside
    rw [Stream.positions, List.getElem?_map, behind]
    obtain rfl | rfl : x = 0 ∨ x = 1 := by omega
    · rfl
    · rfl
  have code : ∀ {x : Nat}, x < 2 → after.toBody.code[t.size loads + x]? = some .ret := by
    intro x inside
    rw [Stream.toBody, Stream.code, List.getElem?_map, behind]
    obtain rfl | rfl : x = 0 ∨ x = 1 := by omega
    · rfl
    · rfl
  refine ⟨after.toBody, name, ?_, code (x := 0) (by decide), code (x := 1) (by decide),
    placed.returns, (Body.stackDepths_explored explored).disciplined⟩
  refine hosted_of_cells ok.distinct cells (fun symbol known binding stands =>
    placed.bound ((lowered.bound _ _).mpr ⟨symbol, known, rfl, stands⟩)) ?_ fun _ => ?_
  · exact (Stream.index_iff ok.distinct).mpr (by simpa using position (x := 0) (by decide))
  · exact (Stream.index_iff ok.distinct).mpr (position (x := 1) (by decide))

end Template

theorem PointDraft.rehearsed {d : PointDraft} {p : Point} (built : d.build = .ok p) {s : Stream}
    {site : Point.Site} (found : p.site s = .ok site) {skip : Nat} {b after : Body} {r : SpliceReport}
    {name : Symbol → Label} (patched : p.Patched (p.loads site) skip b after r name) :
    ∃ trial trialName, p.template.Rehearsed p.captures.length (p.mode = .consume) (p.loads site)
      d.trialLoads after trial r.index (r.place skip) name trialName := by
  have simple := Point.site_simple found
  obtain ⟨sound, balanced, rfl⟩ := d.build_ok built
  obtain ⟨trial, trialName, hosted, resumes, skips, void, disciplined⟩ :=
    Template.checkBalance_ok sound balanced
  refine ⟨trial, trialName, sound, simple, d.trialLoads_simple, rfl, rfl, patched.hosted, hosted, ?_,
    resumes, skips, void, disciplined⟩
  have inside := patched.inside
  rw [patched.length, ← patched.size, Nat.add_comm b.code.length]
  omega

end Interpose
