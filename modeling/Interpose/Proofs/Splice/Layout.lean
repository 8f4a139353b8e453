import Interpose.Proofs.Control.Reach
import Interpose.Proofs.Splice.Apply

/-!
The bodies before and after a splice. Every instruction has a place in the patched body, the
inserted ones stand together in front of the place to go on, and the patched body resolves a label
of the body before to the place of its instruction, or to the splice if it is led through it.
-/

set_option autoImplicit false
set_option relaxedAutoImplicit false

namespace Interpose

namespace SpliceReport

def place (r : SpliceReport) (i : Nat) : Nat := if i < r.index then i else i + r.inserted

def Inside (r : SpliceReport) (x : Nat) : Prop := r.index ≤ x ∧ x < r.index + r.inserted

variable {r : SpliceReport}

theorem place_inj {i j : Nat} (same : r.place i = r.place j) : i = j := by
  unfold place at same
  split at same <;> split at same <;> omega

theorem place_at : r.place r.index = r.index + r.inserted := by simp [place]

theorem not_inside_place (i : Nat) : ¬r.Inside (r.place i) := by
  unfold Inside place
  split <;> omega

theorem exists_place {x : Nat} (outside : ¬r.Inside x) : ∃ i, x = r.place i := by
  unfold Inside at outside
  by_cases front : x < r.index
  · exact ⟨x, by simp [place, front]⟩
  · refine ⟨x - r.inserted, ?_⟩
    have behind : ¬x - r.inserted < r.index := by omega
    rw [place, if_neg behind]
    omega

theorem place_succ {i : Nat} (apart : i + 1 ≠ r.index) : r.place (i + 1) = r.place i + 1 := by
  unfold place
  split <;> split <;> omega

theorem place_before {i : Nat} (next : i + 1 = r.index) : r.place i + 1 = r.index := by
  unfold place
  split <;> omega

theorem place_lt_iff {i n : Nat} (inside : r.index < n) : r.place i < n + r.inserted ↔ i < n := by
  unfold place
  split <;> omega

theorem get_place {α : Type} {before middle onward : List α} (front : before.length = r.index)
    (new : middle.length = r.inserted) (i : Nat) :
    (before ++ middle ++ onward)[r.place i]? = (before ++ onward)[i]? := by
  unfold place
  split
  · next early =>
    rw [List.append_assoc, List.getElem?_append_left (by omega),
      List.getElem?_append_left (by omega)]
  · next late =>
    rw [List.getElem?_append_right (by simp only [List.length_append]; omega),
      List.getElem?_append_right (by omega), List.length_append]
    congr 1
    omega

end SpliceReport

namespace Stream

variable {s : Stream}

theorem toBody_target (s : Stream) (l : Label) :
    s.toBody.target? l = (s.labels.find? l).bind s.index? := by
  simp only [Body.target?, Body.resolve?, toBody, LabelTable.find?_filterMap]
  cases found : (s.labels.find? l).bind s.index? with
  | none => rfl
  | some i =>
    obtain ⟨p, -, index⟩ := Option.bind_eq_some_iff.mp found
    have inside := index_lt index
    simp [inside]

theorem ofBody_toBody {b : Body} (loaded : ofBody b = .ok s) : s.toBody = b := by
  have distinct := (ofBody_wellFormed loaded).distinct
  obtain ⟨inside, -, rfl⟩ := ofBody_iff.mp loaded
  obtain ⟨instructions, labels, returns⟩ := b
  simp only [toBody, code, code_numbered, Body.mk.injEq, true_and, and_true]
  refine LabelTable.ext_find? fun l => ?_
  simp only [LabelTable.find?_filterMap]
  cases found : labels.find? l with
  | none => rfl
  | some i =>
    have bound : i < instructions.length := inside _ (LabelTable.find?_eq_some_iff.mp found)
    refine (index_iff distinct).mpr ?_
    simp [positions, positions_numbered, bound]

end Stream

namespace Template

variable {loads : Loads} {t : Template}

/-- A body holds the code of a template from an index on, and resolves the symbols of the template
as they are meant. -/
structure Hosted (loads : Loads) (t : Template) (b : Body) (start skip : Nat)
    (name : Symbol → Label) : Prop where
  code : ∀ x < t.size loads, b.code[start + x]? = (t.code loads name)[x]?
  resume : .resume ∈ t.symbols → b.target? (name .resume) = some (start + t.size loads)
  skip : .skip ∈ t.symbols → b.target? (name .skip) = some skip
  named : ∀ mark x, .named mark ∈ t.symbols → t.MarksAt loads mark x →
    x < t.size loads → b.target? (name (.named mark)) = some (start + x)

theorem hosted_of_cells {s : Stream} (distinct : s.positions.Nodup) {before onward : List Cell}
    {serial : Nat} {name : Symbol → Label}
    (cells : s.cells = before ++ Stream.numbered serial (t.code loads name) ++ onward)
    {resumeAt skipAt : Position} (bound : ∀ symbol ∈ t.symbols, ∀ binding,
      t.Stands loads resumeAt skipAt symbol binding →
        s.labels.find? (name symbol) = some (Stream.bindingPosition serial binding))
    {skip : Nat} (onResume : s.index? resumeAt = some (before.length + t.size loads))
    (onSkip : .skip ∈ t.symbols → s.index? skipAt = some skip) :
    t.Hosted loads s.toBody before.length skip name := by
  have stands : ∀ symbol ∈ t.symbols, ∀ binding, t.Stands loads resumeAt skipAt symbol binding →
      s.toBody.target? (name symbol) = s.index? (Stream.bindingPosition serial binding) := by
    intro symbol known binding here
    rw [Stream.toBody_target, bound symbol known binding here]
    rfl
  refine ⟨fun x inside => ?_, fun known => (stands _ known _ .resume).trans onResume,
    fun known => (stands _ known _ .skip).trans (onSkip known), fun mark x known marked inside =>
      (stands _ known _ (.named marked)).trans ?_⟩
  · simp only [Stream.toBody, Stream.code, cells, List.map_append, Stream.code_numbered,
      List.append_assoc]
    rw [List.getElem?_append_right (by simp), List.getElem?_append_left (by simp; omega)]
    simp
  · refine (Stream.index_iff distinct).mpr ?_
    simp only [Stream.positions, cells, List.map_append, List.append_assoc,
      Stream.positions_numbered]
    rw [List.getElem?_append_right (by simp), List.getElem?_append_left (by simp; omega)]
    simp [inside, Stream.bindingPosition]

end Template

namespace Point

variable {p : Point} {s t : Stream} {site : Site} {r : SpliceReport} {name : Symbol → Label}

/-- Where a branch to an instruction goes after the splice. In front of its anchor a splice comes
first. -/
def arrival (p : Point) (r : SpliceReport) (j : Nat) : Nat :=
  if p.placement = .before ∧ j = r.index then r.index else r.place j

/-- The body `after` is the body `b` with a point spliced in, and `skip` is the skip target. -/
structure Patched (p : Point) (loads : Loads) (skip : Nat) (b after : Body) (r : SpliceReport)
    (name : Symbol → Label) : Prop where
  size : r.inserted = p.template.size loads
  nonempty : 0 < r.inserted
  inside : r.index < b.code.length
  length : after.code.length = b.code.length + r.inserted
  returns : after.returns = b.returns
  kept : ∀ i, after.code[r.place i]? = b.code[i]?
  closed : ∀ insn ∈ b.code, ∀ l ∈ insn.branchTargets, ∃ j, b.target? l = some j
  moved : ∀ l j, b.target? l = some j → after.target? l = some (p.arrival r j)
  hosted : p.template.Hosted loads after r.index (r.place skip) name

theorem Spliced.place (ok : s.WellFormed) (kept : t.WellFormed)
    (spliced : p.Spliced s site r t name) {q : Position} {i : Nat} (index : s.index? q = some i) :
    t.index? q = some (r.place i) := by
  obtain ⟨before, onward, whole, front, cells⟩ := spliced.cells
  rw [Stream.index_iff ok.distinct] at index
  rw [Stream.index_iff kept.distinct]
  simp only [Stream.positions, whole, cells, List.map_append] at index ⊢
  rw [SpliceReport.get_place (by simpa using front) (by simp [spliced.inserted])]
  exact index

theorem Spliced.code_eq (spliced : p.Spliced s site r t name) : t.code = s.code.take r.index ++
    p.template.flatMap (TemplateOp.code (p.loads site) name) ++ s.code.drop r.index := by
  obtain ⟨before, onward, whole, front, cells⟩ := spliced.cells
  simp only [Stream.code, whole, cells, List.map_append, Stream.code_numbered]
  rw [List.take_left' (by simpa using front), List.drop_left' (by simpa using front)]
  rfl

theorem Spliced.code (spliced : p.Spliced s site r t name) : ∃ inserted,
    inserted.length = r.inserted ∧
      t.code = s.code.take r.index ++ inserted ++ s.code.drop r.index :=
  ⟨_, (Template.code_length name p.template).trans spliced.inserted.symm, spliced.code_eq⟩

theorem Spliced.position_inserted (spliced : p.Spliced s site r t name) {k : Nat}
    (inside : k < r.inserted) : t.position? (r.index + k) = some ⟨s.nextSerial + k⟩ := by
  obtain ⟨before, onward, -, front, cells⟩ := spliced.cells
  rw [spliced.inserted] at inside
  have here : t.positions[r.index + k]? = some ⟨s.nextSerial + k⟩ := by
    simp only [Stream.positions, cells, List.map_append, Stream.positions_numbered,
      List.append_assoc]
    rw [List.getElem?_append_right (by simp [front]),
      List.getElem?_append_left (by simp [front, inside])]
    simp [front, inside]
  simpa only [Stream.position?, Stream.positions, List.getElem?_map] using here

theorem Spliced.start (kept : t.WellFormed) (spliced : p.Spliced s site r t name) :
    t.index? ⟨s.nextSerial⟩ = some r.index :=
  (Stream.position_iff kept.distinct).mp (spliced.position_inserted spliced.nonempty)

theorem Spliced.patched (ok : s.WellFormed) (kept : t.WellFormed)
    (spliced : p.Spliced s site r t name) {skip : Nat} (onSkip : s.index? site.skipAt = some skip) :
    p.Patched (p.loads site) skip s.toBody t.toBody r name := by
  obtain ⟨before, onward, whole, front, cells⟩ := spliced.cells
  have inside : r.index < s.cells.length := Stream.index_lt spliced.index
  refine ⟨spliced.inserted, spliced.nonempty, ?_, ?_, spliced.returns, fun i => ?_, ?_, ?_, ?_⟩
  · simpa [Stream.toBody] using inside
  · simp only [Stream.toBody, Stream.length_code, whole, cells, List.length_append,
      Stream.length_numbered, Template.code_length, spliced.inserted]
    omega
  · simp only [Stream.toBody, Stream.code, whole, cells, List.map_append, Stream.code_numbered]
    exact SpliceReport.get_place (by simpa using front) (by simp [spliced.inserted]) i
  · intro insn member l target
    obtain ⟨q, found⟩ := ok.closed member target
    obtain ⟨i, index⟩ := Stream.index_of_mem (ok.live found)
    exact ⟨i, by simp [Stream.toBody_target, found, index]⟩
  · intro l j target
    simp only [Stream.toBody_target, Option.bind_eq_some_iff] at target ⊢
    obtain ⟨q, found, index⟩ := target
    refine ⟨_, spliced.moved l q found, ?_⟩
    have same : q = site.resumeAt ↔ j = r.index := by
      rw [Stream.index_iff ok.distinct] at index
      have here := (Stream.index_iff ok.distinct).mp spliced.index
      constructor
      · rintro rfl
        exact (List.getElem?_inj (List.getElem?_eq_some_iff.mp index).1 ok.distinct).mp
          (index.trans here.symm)
      · rintro rfl
        exact Option.some.inj (index.symm.trans here)
    simp only [arrival, same]
    split
    · exact spliced.start kept
    · exact spliced.place ok kept index
  · rw [← front]
    refine Template.hosted_of_cells kept.distinct cells spliced.bound ?_ fun _ =>
      spliced.place ok kept onSkip
    rw [front, spliced.place ok kept spliced.index, SpliceReport.place_at, spliced.inserted]

/-! ### Steps from the instructions of the body before -/

section Patched

variable {loads : Loads} {skip : Nat} {b after : Body}
  (patched : p.Patched loads skip b after r name)
include patched

theorem Patched.canRun_iff {i d : Nat} {insn : Instruction} (code : b.code[i]? = some insn) :
    after.CanRun insn (r.place i) d ↔ b.CanRun insn i d := by
  have bound := (List.getElem?_eq_some_iff.mp code).1
  have onward : r.place i + 1 < after.code.length ↔ i + 1 < b.code.length := by
    have inside := patched.inside
    rw [patched.length]
    unfold SpliceReport.place
    split <;> omega
  have closed := patched.closed insn (List.mem_of_getElem? code)
  constructor
  · rintro ⟨enough, returns, falls, -⟩
    exact ⟨enough, fun ret => patched.returns ▸ returns ret, fun next => onward.mp (falls next),
      closed⟩
  · rintro ⟨enough, returns, falls, -⟩
    refine ⟨enough, fun ret => patched.returns ▸ returns ret, fun next => onward.mpr (falls next),
      fun l target => ?_⟩
    obtain ⟨j, found⟩ := closed l target
    exact ⟨_, patched.moved l j found⟩

/-- A state of the patched body where control comes to an instruction of the body before: at the
instruction, or at the splice in front of it. -/
def Arrives (r : SpliceReport) (j e : Nat) (u : State) : Prop :=
  u = (r.place j, e) ∨ j = r.index ∧ u = (r.index, e)

omit patched in
theorem arrives_next (i e : Nat) : Arrives r (i + 1) e (r.place i + 1, e) := by
  by_cases next : i + 1 = r.index
  · exact .inr ⟨next, by rw [SpliceReport.place_before next]⟩
  · exact .inl (by rw [SpliceReport.place_succ next])

omit patched in
theorem arrives_target (j e : Nat) : Arrives r j e (p.arrival r j, e) := by
  unfold arrival
  split
  · next both => exact .inr ⟨both.2, rfl⟩
  · exact .inl rfl

theorem Patched.lands {i d j e : Nat} (leads : b.Leads (i, d) (j, e)) :
    ∃ k, after.Leads (r.place i, d) (k, e) ∧
      (j = i + 1 ∧ k = r.place i + 1 ∨ k = p.arrival r j) := by
  obtain ⟨insn, code, can, way⟩ := Body.leads_iff.mp leads
  have there : after.code[r.place i]? = some insn := (patched.kept i).trans code
  have runs := (patched.canRun_iff code).mpr can
  rcases way with ⟨falls, rfl, rfl⟩ | ⟨l, target, found, rfl⟩
  · exact ⟨_, Body.leads_iff.mpr ⟨insn, there, runs, .inl ⟨falls, rfl, rfl⟩⟩, .inl ⟨rfl, rfl⟩⟩
  · exact ⟨_, Body.leads_iff.mpr ⟨insn, there, runs, .inr ⟨l, target, patched.moved l j found, rfl⟩⟩,
      .inr rfl⟩

/-- Every step of the body before is a step of the patched body. -/
theorem Patched.leads_of {i d j e : Nat} (leads : b.Leads (i, d) (j, e)) :
    ∃ u, after.Leads (r.place i, d) u ∧ Arrives r j e u := by
  obtain ⟨k, lands, ⟨rfl, rfl⟩ | rfl⟩ := patched.lands leads
  · exact ⟨_, lands, arrives_next i e⟩
  · exact ⟨_, lands, arrives_target j e⟩

/-- The patched body has no other steps from the instructions of the body before. -/
theorem Patched.leads_from {i d : Nat} {u : State} (leads : after.Leads (r.place i, d) u) :
    ∃ j e, b.Leads (i, d) (j, e) ∧ Arrives r j e u := by
  obtain ⟨k, depth⟩ := u
  obtain ⟨insn, code, can, way⟩ := Body.leads_iff.mp leads
  have here : b.code[i]? = some insn := (patched.kept i).symm.trans code
  have runs := (patched.canRun_iff here).mp can
  rcases way with ⟨falls, rfl, rfl⟩ | ⟨l, target, found, rfl⟩
  · exact ⟨_, _, Body.leads_iff.mpr ⟨insn, here, runs, .inl ⟨falls, rfl, rfl⟩⟩, arrives_next i _⟩
  · obtain ⟨j, before⟩ := patched.closed insn (List.mem_of_getElem? here) l target
    obtain rfl := Option.some.inj (found.symm.trans (patched.moved l j before))
    exact ⟨_, _, Body.leads_iff.mpr ⟨insn, here, runs, .inr ⟨l, target, before, rfl⟩⟩,
      arrives_target j _⟩

end Patched

theorem Spliced.skip_index (found : p.site s = .ok site) (spliced : p.Spliced s site r t name) :
    ∃ skip, s.index? site.skipAt = some skip := by
  by_cases uses : p.template.usesSkip = true
  · exact Stream.index_of_mem (spliced.skips uses)
  · rw [skipAt_resume found (by simpa using uses)]
    exact ⟨r.index, spliced.index⟩

end Point

end Interpose
