import Interpose.Proofs.Splice.Removal
import Interpose.Proofs.Stream.Fresh

/-!
Where the branches of a splice go. The block is the code of the elements in order, every symbol has a
label that stood nowhere before, and a branch goes where its symbol says, whether the place is marked
in front of the branch or behind it. The instructions from before go on branching to where they did,
except that a splice in front of its anchor takes the branches to the anchor.
-/

set_option autoImplicit false
set_option relaxedAutoImplicit false

namespace Interpose

theorem TemplateOp.branch_insn (loads : Loads) (name : Symbol → Label) {op : TemplateOp}
    {symbol : Symbol} (target : op.target? = some symbol) :
    ∃ insn, op.code loads name = [insn] ∧ insn.branchTargets = [name symbol] := by
  cases op with
  | branch other | branchTrue other | branchFalse other =>
    obtain rfl : other = symbol := Option.some.inj target
    exact ⟨_, rfl, rfl⟩
  | loadActive | typeTest | loadCapture | invokeCallback | mark | emit => cases target

namespace Point

variable {p : Point} {s t : Stream} {site : Site} {r : SpliceReport} {name : Symbol → Label}

/-- The place that a symbol stands for in the stream with the splice: the instruction that the method
goes on with, the one that a handled splice skips to, or the first one lowered behind the mark. -/
inductive Goal (p : Point) (site : Site) (r : SpliceReport) (t : Stream) : Symbol → Position → Prop
  | resume : Goal p site r t .resume site.resumeAt
  | skip : Goal p site r t .skip site.skipAt
  | named {mark : String} {n : Nat} {q : Position} : p.template.MarksAt (p.loads site) mark n →
      t.position? (r.index + n) = some q → Goal p site r t (.named mark) q

/-- The stream `t` is the stream `s` with a template in it, which branches as it says. -/
structure Lowers (p : Point) (s : Stream) (site : Site) (r : SpliceReport) (t : Stream)
    (name : Symbol → Label) : Prop where
  /-- The elements in order stand between the instructions from before. -/
  block : t.code = s.code.take r.index ++
    p.template.flatMap (TemplateOp.code (p.loads site) name) ++ s.code.drop r.index
  length : (p.template.flatMap (TemplateOp.code (p.loads site) name)).length = r.inserted
  /-- An element that loads a capture has the code of that capture. -/
  captured : ∀ i, .loadCapture i ∈ p.template → ∃ c code, p.captures[i]? = some c ∧
    p.captureLoads s site.anchor.span c = .ok code ∧
    TemplateOp.code (p.loads site) name (.loadCapture i) = code
  /-- The instruction to go on with is the one behind the splice. -/
  resume : t.index? site.resumeAt = some (r.index + r.inserted)
  /-- The instruction to skip to is one from before. -/
  skip : p.template.usesSkip = true → site.skipAt ∈ s.positions
  /-- A mark names an instruction of the splice. -/
  marks : ∀ mark n, p.template.MarksAt (p.loads site) mark n → n < r.inserted
  /-- An element that branches is one instruction, which goes to the place of its symbol. -/
  branches : ∀ front op back symbol, p.template = front ++ op :: back →
    op.target? = some symbol → ∃ here insn goal,
      t.position? (r.index + Template.size (p.loads site) front) = some here ∧
      op.code (p.loads site) name = [insn] ∧ t.insn? here = some insn ∧
      t.branchTarget? here = some goal ∧ ∀ q, Goal p site r t symbol q ↔ q = goal
  /-- No other element branches. -/
  plain : ∀ op ∈ p.template, op.target? = none →
    ∀ insn ∈ op.code (p.loads site) name, insn.branchTargets = []
  apart : ∀ a ∈ p.template.symbols, ∀ b ∈ p.template.symbols, name a = name b → a = b
  /-- The label of a symbol stood nowhere, and was no branch's target. -/
  new : ∀ symbol ∈ p.template.symbols,
    s.labels.find? (name symbol) = none ∧ ∀ insn ∈ s.code, name symbol ∉ insn.branchTargets
  /-- As long as the numbers last, the label of a symbol was not defined before. -/
  undefined : ∀ named defined n, Stream.History s named defined → (∀ l ∈ named, l.id.toNat < n) →
    n + defined.length + p.template.symbols.dedup.length < UInt32.size →
    ∀ symbol ∈ p.template.symbols, name symbol ∉ defined
  /-- The branches from before go to where they went, or to the splice if it is in front of its anchor
  and they went to the anchor. -/
  kept : ∃ first, t.position? r.index = some first ∧ ∀ q insn, s.insn? q = some insn →
    t.insn? q = some insn ∧ ∀ l ∈ insn.branchTargets, ∃ goal, s.labels.find? l = some goal ∧
      t.labels.find? l = some
        (if p.placement = .before ∧ goal = site.anchor.span.first then first else goal)

theorem Spliced.find_goal (finds : p.site s = .ok site) {maySkip : Bool}
    (sound : p.template.Sound p.captures.length maySkip) (spliced : p.Spliced s site r t name)
    {symbol : Symbol} (known : symbol ∈ p.template.symbols) {q : Position}
    (aims : Goal p site r t symbol q) : t.labels.find? (name symbol) = some q := by
  cases aims with
  | resume => exact spliced.bound _ known _ .resume
  | skip => exact spliced.bound _ known _ .skip
  | @named mark n q marked here =>
    have inside : n < r.inserted := spliced.inserted ▸ sound.mark_lt (site_simple finds) marked
    obtain rfl := Option.some.inj ((spliced.position_inserted inside).symm.trans here)
    exact spliced.bound _ known _ (.named marked)

theorem Spliced.goal_iff (finds : p.site s = .ok site) {maySkip : Bool}
    (sound : p.template.Sound p.captures.length maySkip) (spliced : p.Spliced s site r t name)
    {symbol : Symbol} (known : symbol ∈ p.template.symbols) :
    ∃ goal, t.labels.find? (name symbol) = some goal ∧
      ∀ q, Goal p site r t symbol q ↔ q = goal := by
  obtain ⟨goal, aims⟩ : ∃ goal, Goal p site r t symbol goal := by
    cases symbol with
    | resume => exact ⟨_, .resume⟩
    | skip => exact ⟨_, .skip⟩
    | named mark =>
      obtain ⟨binding, stands⟩ : ∃ binding, p.template.Stands (p.loads site) site.resumeAt
          site.skipAt (.named mark) binding := sound.stands known
      cases stands with
      | named marked =>
        have inside := sound.mark_lt (site_simple finds) marked
        exact ⟨_, .named marked (spliced.position_inserted (spliced.inserted ▸ inside))⟩
  have found := spliced.find_goal finds sound known aims
  refine ⟨goal, found, fun q => ⟨fun other => ?_, fun same => same ▸ aims⟩⟩
  exact Option.some.inj ((spliced.find_goal finds sound known other).symm.trans found)

theorem Spliced.insn_kept (ok : s.WellFormed) (kept : t.WellFormed)
    (spliced : p.Spliced s site r t name) {q : Position} {insn : Instruction}
    (here : s.insn? q = some insn) : t.insn? q = some insn := by
  cases index : s.index? q with
  | none => simp [Stream.insn?, Stream.onward_absent index] at here
  | some i =>
    obtain ⟨before, onward, whole, front, cells⟩ := spliced.cells
    rw [Stream.insn_at index] at here
    rw [Stream.insn_at (spliced.place ok kept index)]
    simp only [Stream.code, whole, cells, List.map_append] at here ⊢
    rw [SpliceReport.get_place (by simpa using front) (by simp [spliced.inserted])]
    exact here

theorem Spliced.code_at (spliced : p.Spliced s site r t name) {front back : Template}
    {op : TemplateOp} (split : p.template = front ++ op :: back) {x : Nat}
    (inside : x < op.size (p.loads site)) :
    t.code[r.index + Template.size (p.loads site) front + x]? =
      (op.code (p.loads site) name)[x]? := by
  obtain ⟨before, onward, -, start, cells⟩ := spliced.cells
  have length := op.code_length (p.loads site) name
  simp only [Stream.code, cells, split, List.map_append, Stream.code_numbered, List.append_assoc,
    Template.code_append, Template.code_cons]
  rw [List.getElem?_append_right (by simp only [List.length_map]; omega),
    List.getElem?_append_right (by simp only [List.length_map, Template.code_length]; omega),
    List.getElem?_append_left (by simp only [List.length_map, Template.code_length]; omega)]
  congr 1
  simp only [List.length_map, Template.code_length]
  omega

theorem Spliced.branch_goes (finds : p.site s = .ok site) (kept : t.WellFormed) {maySkip : Bool}
    (sound : p.template.Sound p.captures.length maySkip) (spliced : p.Spliced s site r t name)
    {front back : Template} {op : TemplateOp} {symbol : Symbol}
    (split : p.template = front ++ op :: back) (target : op.target? = some symbol) :
    ∃ here insn goal, t.position? (r.index + Template.size (p.loads site) front) = some here ∧
      op.code (p.loads site) name = [insn] ∧ t.insn? here = some insn ∧
      t.branchTarget? here = some goal ∧ ∀ q, Goal p site r t symbol q ↔ q = goal := by
  have member : op ∈ p.template := by simp [split]
  have known := Template.mem_symbols_of_target member target
  obtain ⟨goal, found, aims⟩ := spliced.goal_iff finds sound known
  obtain ⟨insn, code, targets⟩ := op.branch_insn (p.loads site) name target
  have one : op.size (p.loads site) = 1 := by
    rw [← op.code_length (p.loads site) name, code]
    rfl
  have there := spliced.code_at split (x := 0) (one ▸ Nat.one_pos)
  rw [Nat.add_zero, code, List.getElem?_cons_zero] at there
  have inside : Template.size (p.loads site) front < r.inserted := by
    rw [spliced.inserted, split, Template.size_append, Template.size_cons, one]
    omega
  have here := spliced.position_inserted inside
  have index := (Stream.position_iff kept.distinct).mp here
  refine ⟨_, insn, goal, here, code, (Stream.insn_at index).trans there, ?_, aims⟩
  simp [Stream.branchTarget?, Stream.insn_at index, there, targets, found]

theorem capture_code (finds : p.site s = .ok site) {maySkip : Bool}
    (sound : p.template.Sound p.captures.length maySkip) (name : Symbol → Label) {i : Nat}
    (loads : .loadCapture i ∈ p.template) : ∃ c code, p.captures[i]? = some c ∧
      p.captureLoads s site.anchor.span c = .ok code ∧
      TemplateOp.code (p.loads site) name (.loadCapture i) = code := by
  obtain ⟨-, -, -, captured, -⟩ := site_iff.mp finds
  have related := allCaptureLoads_ok captured
  have inside := sound.captured i loads
  have inside' : i < site.captures.length := related.length_eq ▸ inside
  refine ⟨_, _, List.getElem?_eq_getElem inside, related.get inside inside', ?_⟩
  simp [TemplateOp.code, Point.loads, inside']

theorem plain_code (finds : p.site s = .ok site) {maySkip : Bool}
    (sound : p.template.Sound p.captures.length maySkip) {op : TemplateOp}
    (member : op ∈ p.template) (still : op.target? = none) {insn : Instruction}
    (here : insn ∈ op.code (p.loads site) name) : insn.branchTargets = [] := by
  rcases code_origin finds here with rfl | ⟨-, branches⟩ | ⟨own, branches, -⟩
  · refine List.eq_nil_iff_forall_not_mem.mpr fun l target => ?_
    simpa [sound.plain insn member] using Stream.branch_mentions target
  · rw [Instruction.branchTargets, if_neg (by simp [branches])]
  · rw [branches, own, still]
    rfl

theorem Spliced.label_new (ok : s.WellFormed) {maySkip : Bool}
    (sound : p.template.Sound p.captures.length maySkip) (spliced : p.Spliced s site r t name)
    {symbol : Symbol} (known : symbol ∈ p.template.symbols) :
    s.labels.find? (name symbol) = none ∧ ∀ insn ∈ s.code, name symbol ∉ insn.branchTargets := by
  have nowhere := spliced.unbound sound known
  refine ⟨nowhere, fun insn member target => ?_⟩
  obtain ⟨q, bound⟩ := ok.closed member target
  rw [nowhere] at bound
  cases bound

theorem Spliced.label_undefined (spliced : p.Spliced s site r t name) {named defined : List Label}
    {n : Nat} (history : Stream.History s named defined) (below : ∀ l ∈ named, l.id.toNat < n)
    (fits : n + defined.length + p.template.symbols.dedup.length < UInt32.size) {symbol : Symbol}
    (known : symbol ∈ p.template.symbols) : name symbol ∉ defined := by
  obtain ⟨counts, earlier⟩ := history.counts below (by omega)
  have most := counts.most
  have among := spliced.mem_upcoming.mpr ⟨symbol, known, rfl⟩
  have next := ((Stream.mem_upcoming_iff (by omega)).mp among).1
  exact fun member => UInt32.not_lt.mpr next (earlier _ member)

theorem Spliced.label_kept (finds : p.site s = .ok site) (spliced : p.Spliced s site r t name)
    {l : Label} {goal : Position} (bound : s.labels.find? l = some goal) :
    t.labels.find? l = some (if p.placement = .before ∧ goal = site.anchor.span.first
      then ⟨s.nextSerial⟩ else goal) := by
  have start : p.placement = .before → site.anchor.span.first = site.resumeAt := by
    intro placement
    obtain ⟨-, continues, -⟩ := site_iff.mp finds
    simpa [Point.resumeAt, placement] using continues
  refine (spliced.moved l goal bound).trans (congrArg some ?_)
  by_cases placement : p.placement = .before
  · simp [placement, start placement]
  · simp [placement]

/-- Lowering keeps the control flow of the template. What goes in is the code of its elements in
order, and each branch of it goes to the place of its symbol, whose label was bound nowhere. Nothing that was
there before branches anywhere else, but for the branches that are led through the splice. -/
theorem lowering_keeps_control_flow {d : PointDraft} (built : d.build = .ok p)
    (reached : s.Reachable) (applied : p.apply s = (.ok r, t)) :
    ∃ site name, p.site s = .ok site ∧ p.Lowers s site r t name := by
  have ok := reached.wellFormed
  have sound := PointDraft.build_sound built
  obtain ⟨site, name, finds, spliced, kept⟩ := apply_spliced ok applied
  refine ⟨site, name, finds, {
    block := spliced.code_eq
    length := (Template.code_length name p.template).trans spliced.inserted.symm
    captured := fun i loads => capture_code finds sound name loads
    resume := by rw [spliced.place ok kept spliced.index, SpliceReport.place_at]
    skip := spliced.skips
    marks := fun mark n marked => spliced.inserted ▸ sound.mark_lt (site_simple finds) marked
    branches := fun front op back symbol => spliced.branch_goes finds kept sound
    plain := fun op member still insn here => plain_code finds sound member still here
    apart := spliced.apart sound
    new := fun symbol known => spliced.label_new ok sound known
    undefined := fun named defined n history below fits symbol known =>
      spliced.label_undefined history below fits known
    kept := ?_ }⟩
  refine ⟨_, spliced.position_inserted spliced.nonempty, fun q insn here =>
    ⟨spliced.insn_kept ok kept here, fun l target => ?_⟩⟩
  obtain ⟨goal, bound⟩ := ok.closed (Stream.mem_code_of_insn here) target
  exact ⟨goal, bound, spliced.label_kept finds bound⟩

end Point

/-- Calls the callback for as long as the active object is there; one of its two branches goes back and
one goes on, past the marks of the same place. -/
def loopTemplate : Template :=
  [.loadActive, .branchFalse (.named "out"), .mark "again", .loadActive, .invokeCallback,
    .loadActive, .branchTrue (.named "again"), .mark "out", .mark "end", .branch .resume]

def loopPoint : PointDraft := { exitPoint with template := some loopTemplate }

/-- The branch of the method goes to the loop then, and those of the loop go to the instruction behind
the marks, to the start of the loop's body, and to the return. -/
theorem loop_splice_branches : ∃ s p r t site name, Stream.ofBody guardedBody = .ok s ∧
    loopPoint.build = .ok p ∧ p.apply s = (.ok r, t) ∧ p.site s = .ok site ∧
    p.Lowers s site r t name ∧ (List.range 11).map (fun i =>
      ((t.position? i).bind t.branchTarget?).bind t.index?) =
        [none, some 3, none, none, some 9, none, none, none, some 5, some 10, none] := by
  obtain ⟨s, loaded⟩ : ∃ s, Stream.ofBody guardedBody = .ok s := ⟨_, rfl⟩
  obtain ⟨p, built⟩ : ∃ p, loopPoint.build = .ok p := ⟨_, rfl⟩
  obtain ⟨r, t, applied, goes⟩ : ∃ r t, p.apply s = (.ok r, t) ∧ (List.range 11).map (fun i =>
      ((t.position? i).bind t.branchTarget?).bind t.index?) =
        [none, some 3, none, none, some 9, none, none, none, some 5, some 10, none] := by
    cases loaded
    cases built
    exact ⟨_, _, rfl, rfl⟩
  obtain ⟨site, name, found, lowers⟩ :=
    Point.lowering_keeps_control_flow built (.loaded loaded) applied
  exact ⟨s, p, r, t, site, name, loaded, built, applied, found, lowers, goes⟩

def mentioningBody : Body := ⟨[⟨.nop, .label ⟨0⟩⟩, .ret], .empty, false⟩

/-- The splice takes the label that such an instruction mentions, which leads to the return then. -/
theorem mentioned_label_taken : ∃ s p r t, Stream.ofBody mentioningBody = .ok s ∧
    watchPoint.build = .ok p ∧ p.apply s = (.ok r, t) ∧ s.code[0]? = some ⟨.nop, .label ⟨0⟩⟩ ∧
    s.labels.find? ⟨0⟩ = none ∧ r.index = 1 ∧ t.code[0]? = some ⟨.nop, .label ⟨0⟩⟩ ∧
    t.code[3]? = some (.brfalse ⟨0⟩) ∧ t.labels.find? ⟨0⟩ = some ⟨1⟩ := by
  obtain ⟨s, loaded⟩ : ∃ s, Stream.ofBody mentioningBody = .ok s := ⟨_, rfl⟩
  obtain ⟨p, built⟩ : ∃ p, watchPoint.build = .ok p := ⟨_, rfl⟩
  refine ⟨s, p, ?_⟩
  cases loaded
  cases built
  exact ⟨_, _, rfl, rfl, rfl, rfl, rfl, rfl, rfl, rfl, rfl⟩

end Interpose
