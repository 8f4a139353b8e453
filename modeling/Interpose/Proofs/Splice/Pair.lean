import Interpose.Proofs.Splice.Again
import Mathlib.Tactic.SplitIfs

/-!
The body with two points spliced in at different places. Whichever went in first, every instruction
and both splices stand at the same indices, and labels of the body before lead to the same places.
The one thing that tells the orders apart is where a skip goes that means an instruction with the
other splice in front of it.
-/

set_option autoImplicit false
set_option relaxedAutoImplicit false

namespace Interpose

namespace SpliceReport

variable {r o : SpliceReport} {i k x : Nat}

def beside (r o : SpliceReport) (k : Nat) : Nat :=
  k + (if k < r.index then 0 else r.inserted) + if k < o.index then 0 else o.inserted

theorem beside_comm (r o : SpliceReport) (k : Nat) : r.beside o k = o.beside r k := by
  unfold beside
  omega

/-- The report of a splice that went in after another one. -/
structure Follows (late o r : SpliceReport) : Prop where
  index : late.index = r.place o.index
  inserted : late.inserted = o.inserted
  apart : o.index ≠ r.index

theorem Follows.place {late : SpliceReport} (follows : late.Follows o r) (k : Nat) :
    late.place (r.place k) = r.beside o k := by
  have apart := follows.apart
  simp only [SpliceReport.place, beside, follows.index, follows.inserted]
  split_ifs <;> omega

theorem Follows.place_start {late : SpliceReport} (follows : late.Follows o r) :
    late.place r.index = o.place r.index := by
  have apart := follows.apart
  simp only [SpliceReport.place, follows.index, follows.inserted]
  split_ifs <;> omega

theorem Follows.elsewhere {late : SpliceReport} (follows : late.Follows o r) :
    late.index < r.index ∨ r.index + r.inserted < late.index := by
  have apart := follows.apart
  simp only [follows.index, SpliceReport.place]
  split <;> omega

theorem place_add (elsewhere : r.index < i ∨ i + x < r.index) : r.place (i + x) = r.place i + x := by
  unfold place
  split <;> split <;> omega

theorem beside_cases (apart : o.index ≠ r.index) (x : Nat) :
    (∃ k, x = r.beside o k) ∨ (∃ y < r.inserted, x = o.place r.index + y) ∨
      ∃ y < o.inserted, x = r.place o.index + y := by
  obtain ⟨late, follows⟩ : ∃ late : SpliceReport, late.Follows o r :=
    ⟨{ o with index := r.place o.index }, rfl, rfl, apart⟩
  by_cases second : late.Inside x
  · refine .inr (.inr ⟨x - late.index, ?_, ?_⟩) <;>
      simp only [Inside, follows.index, follows.inserted] at second ⊢ <;> omega
  obtain ⟨y, rfl⟩ := exists_place second
  by_cases first : r.Inside y
  · refine .inr (.inl ⟨y - r.index, by unfold Inside at first; omega, ?_⟩)
    have inside : y = r.index + (y - r.index) := by unfold Inside at first; omega
    rw [← follows.place_start, ← place_add ?_, ← inside]
    have elsewhere := follows.elsewhere
    unfold Inside at first
    omega
  · obtain ⟨k, rfl⟩ := exists_place first
    exact .inl ⟨k, follows.place k⟩

end SpliceReport

namespace Point

variable {p q : Point} {lp lq : Loads} {b mid after : Body} {r o late : SpliceReport}
  {np nq : Symbol → Label} {skipP skipQ : Nat}

theorem arrival_elsewhere {j : Nat} (elsewhere : j ≠ r.index) : p.arrival r j = r.place j := by
  simp [arrival, elsewhere]

/-- A splice elsewhere leaves the code of a template together, and all that it means but the skip
target. -/
theorem Patched.hosted_before {t : Template} {loads : Loads} {start skip target : Nat}
    {name : Symbol → Label} (patched : q.Patched lq skip mid after r nq)
    (hosted : t.Hosted loads mid start target name)
    (elsewhere : r.index < start ∨ start + t.size loads < r.index) :
    t.Hosted loads after (r.place start) (q.arrival r target) name where
  code x inside := by
    rw [← hosted.code x inside, ← patched.kept, SpliceReport.place_add (by omega)]
  resume known := by
    rw [patched.moved _ _ (hosted.resume known), arrival_elsewhere (by omega),
      SpliceReport.place_add elsewhere]
  skip known := patched.moved _ _ (hosted.skip known)
  named mark x known marked inside := by
    rw [patched.moved _ _ (hosted.named mark x known marked inside), arrival_elsewhere (by omega),
      SpliceReport.place_add (by omega)]

/-- Where a branch to an instruction goes after two splices. -/
def arrivalBeside (p q : Point) (r o : SpliceReport) (k : Nat) : Nat :=
  if p.placement = .before ∧ k = r.index then o.place r.index
  else if q.placement = .before ∧ k = o.index then r.place o.index
  else r.beside o k

/-- The body `after` is the body `b` with two points spliced in at different places. -/
structure Paired (p q : Point) (lp lq : Loads) (b after : Body) (r o : SpliceReport)
    (np nq : Symbol → Label) (skipP skipQ : Nat) : Prop where
  sizeP : r.inserted = p.template.size lp
  sizeQ : o.inserted = q.template.size lq
  apart : o.index ≠ r.index
  returns : after.returns = b.returns
  length : after.code.length = b.code.length + r.inserted + o.inserted
  kept : ∀ k, after.code[r.beside o k]? = b.code[k]?
  moved : ∀ l k, b.target? l = some k → after.target? l = some (p.arrivalBeside q r o k)
  hostedP : p.template.Hosted lp after (o.place r.index) skipP np
  hostedQ : q.template.Hosted lq after (r.place o.index) skipQ nq

theorem Paired.swap (paired : p.Paired q lp lq b after r o np nq skipP skipQ) :
    q.Paired p lq lp b after o r nq np skipQ skipP where
  sizeP := paired.sizeQ
  sizeQ := paired.sizeP
  apart := paired.apart.symm
  returns := paired.returns
  length := by rw [paired.length]; omega
  kept k := by rw [SpliceReport.beside_comm, paired.kept]
  moved l k target := by
    rw [paired.moved l k target]
    have apart := paired.apart
    simp only [arrivalBeside, Option.some.injEq, SpliceReport.beside_comm o r]
    split
    · next first => rw [if_neg (by omega)]
    · split <;> rfl
  hostedP := paired.hostedQ
  hostedQ := paired.hostedP

/-- Two splices one after the other. Only the skip of the first can be led through the second. -/
theorem Patched.paired (first : p.Patched lp skipP b mid r np)
    (second : q.Patched lq (r.place skipQ) mid after late nq) (follows : late.Follows o r) :
    p.Paired q lp lq b after r o np nq
      (if q.placement = .before ∧ skipP = o.index then r.place o.index else r.beside o skipP)
      (r.beside o skipQ) := by
  have arrives : ∀ k, q.arrival late (r.place k) =
      if q.placement = .before ∧ k = o.index then r.place o.index else r.beside o k := by
    intro k
    have same : r.place k = r.place o.index ↔ k = o.index :=
      ⟨SpliceReport.place_inj, congrArg r.place⟩
    simp only [arrival, follows.index, same, ← follows.place]
  refine ⟨first.size, follows.inserted ▸ second.size, follows.apart,
    second.returns.trans first.returns, ?_, fun k => ?_, fun l k target => ?_, ?_, ?_⟩
  · rw [second.length, first.length, follows.inserted]
  · rw [← follows.place, second.kept, first.kept]
  · rw [second.moved l _ (first.moved l k target)]
    unfold arrival arrivalBeside
    split
    · next here =>
      have elsewhere := follows.elsewhere
      rw [if_neg (by omega), follows.place_start]
    · exact congrArg some (arrives k)
  · have elsewhere := follows.elsewhere
    rw [← follows.place_start, ← arrives]
    exact second.hosted_before first.hosted (first.size ▸ elsewhere)
  · rw [← follows.index, ← follows.place]
    exact second.hosted

end Point

end Interpose
