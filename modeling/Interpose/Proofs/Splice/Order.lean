import Interpose.Proofs.Splice.Agreement
import Interpose.Proofs.Splice.Inner
import Interpose.Proofs.Stream.Reachable
import Mathlib.Data.Nat.ModEq

/-!
Two points in either order. Where the points go in at different places and neither changes what the
other finds, both orders succeed, and they give the same code unless one point skips to the very
instruction that the other is spliced in front of: the skip of the point that goes in first is led
through the other splice, and the skip of the point that goes in last is not.
-/

set_option autoImplicit false
set_option relaxedAutoImplicit false

namespace Interpose

theorem SpliceReport.beside_at (r o : SpliceReport) :
    r.beside o o.index = r.place o.index + o.inserted := by
  simp only [beside, place]
  split_ifs <;> omega

/-- Only a floating-point constant can differ from itself. -/
theorem Instruction.same_self {insn : Instruction} (other : ∀ v, insn.operand ≠ .float v) :
    insn.same insn = true := by
  obtain ⟨opcode, operand⟩ := insn
  cases operand <;> simp_all [Instruction.same, Operand.same]

namespace Stream

variable {s : Stream}

theorem mem_code_of_insn {p : Position} {insn : Instruction} (here : s.insn? p = some insn) :
    insn ∈ s.code := by
  cases split : splitAt? p s.cells with
  | none => simp [insn?, onward, split] at here
  | some parts =>
    obtain ⟨c, head, rfl⟩ := Option.map_eq_some_iff.mp here
    simp only [onward, split] at head
    refine List.mem_map_of_mem ?_
    rw [(split_iff.mp split).1]
    exact List.mem_append_right _ (List.mem_of_head? head)

theorem index_eq_iff (distinct : s.positions.Nodup) {p q : Position} {i j : Nat}
    (left : s.index? p = some i) (right : s.index? q = some j) : i = j ↔ p = q := by
  constructor
  · rintro rfl
    rw [index_iff distinct] at left right
    exact Option.some.inj (left.symm.trans right)
  · rintro rfl
    exact Option.some.inj (left.symm.trans right)

theorem WellFormed.target_none_iff (ok : s.WellFormed) {l : Label} :
    s.toBody.target? l = none ↔ s.labels.find? l = none := by
  rw [toBody_target]
  cases found : s.labels.find? l with
  | none => simp
  | some p =>
    obtain ⟨i, index⟩ := index_of_mem (ok.live found)
    simp [index]

end Stream

namespace Point

variable {p q : Point} {s t v : Stream} {site found late : Site} {r o again : SpliceReport}
  {np nq : Symbol → Label}

theorem captureLoads_mem {anchor : Span} {c : Capture} {code : List Instruction}
    (resolved : p.captureLoads s anchor c = .ok code) {insn : Instruction} (member : insn ∈ code) :
    insn = .ldarg 0 ∨ insn ∈ s.code ∧ insn.opcode.isBranch = false := by
  unfold Point.captureLoads at resolved
  split at resolved
  · cases resolved
  · next position _ =>
    split at resolved
    · cases resolved
    · next original here =>
      have known := Stream.mem_code_of_insn here
      dsimp only at resolved
      split at resolved
      · next load =>
        cases resolved
        obtain rfl := List.mem_singleton.mp member
        exact .inr ⟨known, (Opcode.pure_load_flow load).1⟩
      · split at resolved
        · next field =>
          cases resolved
          rcases List.mem_cons.mp member with rfl | last
          · exact .inl rfl
          · obtain rfl := List.mem_singleton.mp last
            exact .inr ⟨known, by rw [field.1]; rfl⟩
        · cases resolved

/-- Where the code of a template comes from. An instruction is emitted as it stands, or captured from
the stream and no branch, or it is one of the template's own: such an instruction equals itself, and
it mentions the label of its symbol only, to branch to it. -/
theorem code_origin (finds : p.site s = .ok site) {op : TemplateOp} {name : Symbol → Label}
    {insn : Instruction} (here : insn ∈ op.code (p.loads site) name) :
    op = .emit insn ∨ (insn ∈ s.code ∧ insn.opcode.isBranch = false) ∨
      (insn.operand.mentioned = (op.target?.map name).toList ∧
        insn.branchTargets = insn.operand.mentioned ∧ insn.same insn = true) := by
  cases op with
  | loadActive =>
    have loads : insn ∈ p.active.load := here
    cases active : p.active with
    | arg index | «local» index =>
      rw [active] at loads
      obtain rfl := List.mem_singleton.mp loads
      exact .inr (.inr ⟨rfl, rfl, Instruction.same_self fun _ float => by cases float⟩)
    | thisField field =>
      rw [active] at loads
      rcases List.mem_cons.mp loads with rfl | last
      · exact .inr (.inr ⟨rfl, rfl, Instruction.same_self fun _ float => by cases float⟩)
      · obtain rfl := List.mem_singleton.mp last
        exact .inr (.inr ⟨rfl, rfl, Instruction.same_self fun _ float => by cases float⟩)
  | typeTest | invokeCallback =>
    obtain rfl := List.mem_singleton.mp here
    exact .inr (.inr ⟨rfl, rfl, Instruction.same_self fun _ float => by cases float⟩)
  | loadCapture index =>
    obtain ⟨-, -, -, captured, -⟩ := site_iff.mp finds
    have related := allCaptureLoads_ok captured
    cases load : site.captures[index]? with
    | none => simp [TemplateOp.code, Point.loads, load] at here
    | some code =>
      obtain ⟨inside, rfl⟩ := List.getElem?_eq_some_iff.mp load
      have resolved := related.get (related.length_eq ▸ inside) inside
      rcases captureLoads_mem resolved (by simpa [TemplateOp.code, Point.loads, load] using here)
        with rfl | known
      · exact .inr (.inr ⟨rfl, rfl, Instruction.same_self fun _ float => by cases float⟩)
      · exact .inr (.inl known)
  | branch | branchTrue | branchFalse =>
    obtain rfl := List.mem_singleton.mp here
    exact .inr (.inr ⟨rfl, rfl, Instruction.same_self fun _ float => by cases float⟩)
  | mark => cases here
  | emit other =>
    obtain rfl := List.mem_singleton.mp here
    exact .inl rfl

/-- The labels that a lowered template has from elsewhere are those of captured instructions. -/
theorem foreign_mentioned {captures : Nat} {maySkip : Bool}
    (sound : p.template.Sound captures maySkip) (finds : p.site s = .ok site) {l : Label}
    (foreign : p.template.Foreign (p.loads site) l) :
    ∃ insn ∈ s.code, insn.opcode.isBranch = false ∧ l ∈ insn.operand.mentioned := by
  obtain ⟨op, member, target, name, insn, here, mentioned⟩ := foreign
  rcases code_origin finds here with rfl | ⟨known, still⟩ | ⟨own, -, -⟩
  · rw [sound.plain _ member] at mentioned
    cases mentioned
  · exact ⟨insn, known, still, mentioned⟩
  · rw [own, target] at mentioned
    cases mentioned

theorem comparable {maySkip : Bool} (sound : p.template.Sound p.captures.length maySkip)
    (finds : p.site s = .ok site) : Comparable (p.loads site) s.toBody p.template where
  marked mark target := by
    obtain ⟨front, back, whole⟩ :=
      List.append_of_mem (Template.mem_marks.mp (sound.marked mark target))
    have marks : p.template.MarksAt (p.loads site) mark (Template.size (p.loads site) front) :=
      ⟨front, back, whole, rfl⟩
    exact ⟨_, sound.mark_lt (site_simple finds) marks, marks⟩
  foreign l elsewhere := by
    obtain ⟨insn, known, -, mentioned⟩ := foreign_mentioned sound finds elsewhere
    exact ⟨insn, known, mentioned⟩

theorem Settled.paired (ok : s.WellFormed) (kept : t.WellFormed) (done : v.WellFormed)
    (spliced : p.Spliced s site r t np) (finds : q.site s = .ok found)
    (finds_again : q.site t = .ok late) (settled : q.Settled found late)
    (apart : found.resumeAt ≠ site.resumeAt) (second : q.Spliced t late again v nq)
    (index : s.index? found.resumeAt = some o.index)
    (size : o.inserted = q.template.size (q.loads found)) {skipP skipQ : Nat}
    (onP : s.index? site.skipAt = some skipP) (onQ : s.index? found.skipAt = some skipQ) :
    p.Paired q (p.loads site) (q.loads found) s.toBody v.toBody r o np nq
      (if q.placement = .before ∧ skipP = o.index then r.place o.index else r.beside o skipP)
      (r.beside o skipQ) := by
  have resume := settled.resume ok kept spliced finds finds_again apart
  have skips := settled.skips finds finds_again resume
  have first := spliced.patched ok kept onP
  have next := second.patched kept done (skips ▸ spliced.place ok kept onQ)
  rw [settled.loads] at next
  have there : t.index? found.resumeAt = some again.index := resume ▸ second.index
  refine first.paired next ⟨?_, ?_, fun same => ?_⟩
  · exact Option.some.inj (there.symm.trans (spliced.place ok kept index))
  · rw [second.inserted, size, settled.loads]
  · exact apart ((Stream.index_eq_iff ok.distinct index spliced.index).mp same)

/-- A point skips to the very instruction that another is spliced in front of. -/
def SkipsOnto (p q : Point) (atP atQ : Site) : Prop :=
  p.template.usesSkip = true ∧ q.placement = .before ∧ atP.skipAt = atQ.resumeAt

/-- A skip that is led through the other splice differs from one that is not, unless the numbering
wraps around. -/
theorem skip_led_iff {uses before : Prop} [Decidable before] (r o : SpliceReport) (k : Nat) :
    (uses → (if before ∧ k = o.index then r.place o.index else r.beside o k) % Nat.pow 2 32 =
        r.beside o k % Nat.pow 2 32) ↔
      (uses ∧ before ∧ k = o.index → Nat.pow 2 32 ∣ o.inserted) := by
  by_cases led : before ∧ k = o.index
  · obtain ⟨yes, rfl⟩ := led
    simp only [yes, and_true, if_true, SpliceReport.beside_at]
    exact forall_congr' fun _ => Nat.left_modEq_add_iff
  · simp only [if_neg led, implies_true, true_iff]
    exact fun both => absurd both.2 led

/-- Two points that both apply to a stream, at different places, and each of which finds the same
after the other one went in. -/
structure Independent (p q : Point) (s t u : Stream) (rp rq : SpliceReport) (atP atQ : Site) :
    Prop where
  appliesP : p.apply s = (.ok rp, t)
  appliesQ : q.apply s = (.ok rq, u)
  findsP : p.site s = .ok atP
  findsQ : q.site s = .ok atQ
  settledP : ∃ late, p.site u = .ok late ∧ p.Settled atP late
  settledQ : ∃ late, q.site t = .ok late ∧ q.Settled atQ late
  apart : atP.resumeAt ≠ atQ.resumeAt

/-- Independent points can be spliced in in either order, as long as there are numbers for the labels
of both. The results are the same exactly if no constant differs from itself, every label that the
stream mentions although it stands nowhere in it resolves alike, and neither point skips to the
instruction that the other is spliced in front of. (A splice so long that the numbering wraps around
would hide such a skip.) -/
theorem splice_orders_agree_iff {d e : PointDraft} {u : Stream} {atP atQ : Site}
    (reached : s.Reachable) (builtP : d.build = .ok p) (builtQ : e.build = .ok q)
    (independent : p.Independent q s t u r o atP atQ) :
    (s.HasRoom (p.template.symbols.dedup.length + q.template.symbols.dedup.length) →
      ∃ r' v o' w, q.apply t = (.ok r', v) ∧ p.apply u = (.ok o', w)) ∧
    ∀ r' v o' w, q.apply t = (.ok r', v) → p.apply u = (.ok o', w) →
      (v.same w = true ↔
        v.same v = true ∧
        (∀ insn ∈ s.code, ∀ l ∈ insn.operand.mentioned, s.labels.find? l = none →
          v.toBody.number l = w.toBody.number l) ∧
        (p.SkipsOnto q atP atQ → Nat.pow 2 32 ∣ o.inserted) ∧
        (q.SkipsOnto p atQ atP → Nat.pow 2 32 ∣ r.inserted)) := by
  obtain ⟨appliesP, appliesQ, findsP, findsQ, ⟨lateP, againP, settledP⟩, ⟨lateQ, againQ, settledQ⟩,
    apart⟩ := independent
  have soundP := PointDraft.build_sound builtP
  have soundQ := PointDraft.build_sound builtQ
  have ok := reached.wellFormed
  obtain ⟨site, np, here, splicedP, keptT⟩ := apply_spliced ok appliesP
  obtain rfl : site = atP := Except.ok.inj (here.symm.trans findsP)
  obtain ⟨other, mq, there, splicedQ, keptU⟩ := apply_spliced ok appliesQ
  obtain rfl : other = atQ := Except.ok.inj (there.symm.trans findsQ)
  refine ⟨fun room => ?_, fun r' v o' w appliedQ appliedP => ?_⟩
  · obtain ⟨r', v, appliedQ⟩ := settledQ.applies ok keptT soundQ soundP room splicedP appliesQ findsQ
      againQ apart.symm
    obtain ⟨o', w, appliedP⟩ := settledP.applies ok keptU soundP soundQ
      (Nat.add_comm p.template.symbols.dedup.length _ ▸ room) splicedQ appliesP findsP againP apart
    exact ⟨r', v, o', w, appliedQ, appliedP⟩
  obtain ⟨site', nq, here', lateSplicedQ, keptV⟩ := apply_spliced keptT appliedQ
  obtain rfl : site' = lateQ := Except.ok.inj (here'.symm.trans againQ)
  obtain ⟨other', mp, there', lateSplicedP, keptW⟩ := apply_spliced keptU appliedP
  obtain rfl : other' = lateP := Except.ok.inj (there'.symm.trans againP)
  obtain ⟨skipP, onP⟩ := splicedP.skip_index findsP
  obtain ⟨skipQ, onQ⟩ := splicedQ.skip_index findsQ
  have one := settledQ.paired ok keptT keptV splicedP findsQ againQ apart.symm lateSplicedQ
    splicedQ.index splicedQ.inserted onP onQ
  have two := (settledP.paired ok keptU keptW splicedQ findsP againP apart lateSplicedP
    splicedP.index splicedP.inserted onQ onP).swap
  have returns : v.returns = w.returns := one.returns.trans two.returns.symm
  have same : ∀ {w : Stream}, v.returns = w.returns →
      (v.same w = true ↔ Body.sameCode v.toBody.resolved w.toBody.resolved = true) := by
    intro w returns
    simp [Stream.same, Stream.listing, returns]
  rw [same returns, same rfl, one.same_iff two (comparable soundP findsP)
    (comparable soundQ findsQ)]
  refine and_congr_right fun _ => and_congr ?_ (and_congr ?_ ?_)
  · exact forall₄_congr fun _ _ _ _ => imp_congr_left ok.target_none_iff
  · rw [SpliceReport.beside_comm o r, skip_led_iff, SkipsOnto,
      Stream.index_eq_iff ok.distinct onP splicedQ.index]
  · rw [SpliceReport.beside_comm r o, eq_comm (a := o.beside r skipQ % Nat.pow 2 32), skip_led_iff,
      SkipsOnto, Stream.index_eq_iff ok.distinct onQ splicedP.index]

end Point

def copyBody : Body := ⟨[.nop, .ldloc 0, .stloc 1, .ret], .empty, false⟩

def returnPattern : PatternSet := ⟨⟨"return", [⟨0, .opcode .ret⟩]⟩, []⟩

def startPattern : PatternSet := ⟨⟨"start", [⟨0, .opcode .nop⟩]⟩, []⟩

def exitPoint : PointDraft :=
  { PointDraft.make .augment "exit" ⟨"Capable"⟩ returnPattern with placement := .before }

def watchPoint : PointDraft := .make .augment "watch" ⟨"Capable"⟩ startPattern

def earlyPoint : PointDraft :=
  { PointDraft.make .consume "early" ⟨"Capable"⟩ startPattern with skip := .pattern returnPattern }

theorem exit_and_watch_agree : ∃ s p q r t o u atP atQ r' v o' w, Stream.ofBody copyBody = .ok s ∧
    exitPoint.build = .ok p ∧ watchPoint.build = .ok q ∧ p.Independent q s t u r o atP atQ ∧
    q.apply t = (.ok r', v) ∧ p.apply u = (.ok o', w) ∧ v.same w = true := by
  obtain ⟨s, loaded⟩ : ∃ s, Stream.ofBody copyBody = .ok s := ⟨_, rfl⟩
  obtain ⟨p, builtP⟩ : ∃ p, exitPoint.build = .ok p := ⟨_, rfl⟩
  obtain ⟨q, builtQ⟩ : ∃ q, watchPoint.build = .ok q := ⟨_, rfl⟩
  obtain ⟨r, t, o, u, atP, atQ, independent⟩ :
      ∃ r t o u atP atQ, p.Independent q s t u r o atP atQ := by
    cases loaded
    cases builtP
    cases builtQ
    exact ⟨_, _, _, _, _, _, rfl, rfl, rfl, rfl, ⟨_, rfl, rfl, fun _ => rfl, rfl⟩,
      ⟨_, rfl, rfl, fun _ => rfl, rfl⟩, by decide⟩
  obtain ⟨succeed, compare⟩ :=
    Point.splice_orders_agree_iff (.loaded loaded) builtP builtQ independent
  obtain ⟨r', v, o', w, appliedQ, appliedP⟩ := succeed (by
    cases loaded
    cases builtP
    cases builtQ
    exact ⟨Stream.counted_iff.mpr (by decide), by decide⟩)
  have agree := compare r' v o' w appliedQ appliedP
  have itself : v.same v = true := by
    have appliesP := independent.appliesP
    cases loaded
    cases builtP
    cases builtQ
    cases appliesP
    cases appliedQ
    rfl
  have plain : ∀ insn ∈ s.code, insn.operand.mentioned = [] := by
    cases loaded
    decide
  have onward : ∀ {atP atQ}, ¬p.SkipsOnto q atP atQ ∧ ¬q.SkipsOnto p atQ atP := by
    cases builtP
    cases builtQ
    exact ⟨fun onto => absurd onto.1 (by decide), fun onto => absurd onto.1 (by decide)⟩
  refine ⟨s, p, q, r, t, o, u, atP, atQ, r', v, o', w, loaded, builtP, builtQ, independent,
    appliedQ, appliedP, agree.mpr ⟨itself, fun insn member l mentioned => ?_,
      fun onto => absurd onto onward.1, fun onto => absurd onto onward.2⟩⟩
  rw [plain insn member] at mentioned
  cases mentioned

/-- A skip to the return goes past the splice in front of it if that went in first, and through that
splice if it went in last. -/
theorem exit_and_early_differ : ∃ s p q r t o u atP atQ r' v o' w,
    Stream.ofBody copyBody = .ok s ∧ exitPoint.build = .ok p ∧ earlyPoint.build = .ok q ∧
    p.Independent q s t u r o atP atQ ∧
    atP.anchor.span = .single ⟨3⟩ ∧ atQ.anchor.span = .single ⟨0⟩ ∧
    q.apply t = (.ok r', v) ∧ p.apply u = (.ok o', w) ∧ v.same w = false := by
  obtain ⟨s, loaded⟩ : ∃ s, Stream.ofBody copyBody = .ok s := ⟨_, rfl⟩
  obtain ⟨p, builtP⟩ : ∃ p, exitPoint.build = .ok p := ⟨_, rfl⟩
  obtain ⟨q, builtQ⟩ : ∃ q, earlyPoint.build = .ok q := ⟨_, rfl⟩
  refine ⟨s, p, q, ?_⟩
  cases loaded
  cases builtP
  cases builtQ
  exact ⟨_, _, _, _, _, _, _, _, _, _, rfl, rfl, rfl, ⟨rfl, rfl, rfl, rfl,
    ⟨_, rfl, rfl, fun _ => rfl, rfl⟩, ⟨_, rfl, rfl, fun _ => rfl, rfl⟩, by decide⟩, rfl, rfl, rfl,
    rfl, rfl⟩

end Interpose
