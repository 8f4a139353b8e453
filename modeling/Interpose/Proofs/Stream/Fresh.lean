import Interpose.Proofs.Splice.Transparency
import Interpose.Proofs.Stream.Cursors
import Interpose.Proofs.Stream.Issued

/-!
New labels. Whatever was done to a stream since it was made or loaded, the label that it defines
next stands nowhere, no branch leads to it, and it was not defined before, as long as the numbers last:
the next one is above all labels that were named from outside and all that were defined, and no
further above than it takes to count those defined.
-/

set_option autoImplicit false
set_option relaxedAutoImplicit false

namespace Interpose

/-- The labels that a splice defines for the symbols of its template. -/
def Point.defines (p : Point) (s : Stream) : List Label :=
  match p.site s with
  | .error _ => []
  | .ok site => (p.template.foldl (Template.Lowering.step (p.loads site) site.resumeAt site.skipAt)
      ⟨s, [], .empty⟩).symbols.map (·.2)

namespace Stream

def Edit.defines (s : Stream) : Edit → List Label
  | .defineLabel | .cursorDefine _ | .cursorMark (some _) => [s.defineLabel.1]
  | .splice p => p.defines s
  | _ => []

/-- The labels that an edit is told to bind. -/
def Edit.names : Edit → List Label
  | .markLabel l _ => [l]
  | .insertBefore _ b | .insertAfter _ b | .append b | .emitBlock _ b | .emitBlockAfter _ b =>
    b.bindings.map (·.1)
  | _ => []

/-- The streams that edits lead to from a new stream or from a loaded body, with the labels that
were named from outside and those that were defined on the way. -/
inductive History : Stream → (named defined : List Label) → Prop
  | new : History .empty [] []
  | loaded {b : Body} {s : Stream} : ofBody b = .ok s → History s b.labels.labels []
  | edited {s : Stream} {named defined : List Label} (e : Edit) : History s named defined →
      History (e.perform s) (e.names ++ named) (e.defines s ++ defined)

variable {s t : Stream} {named defined : List Label} {n : Nat}

end Stream

/-! ### The labels of one edit -/

namespace Point

variable {p : Point} {s : Stream} {site : Site} {n : Nat}

theorem defines_eq (found : p.site s = .ok site) :
    p.defines s = (s.upcoming p.template.symbols.dedup.length).reverse := by
  obtain ⟨runs, once⟩ :=
    Template.Lowering.runs_all (p.loads site) s site.resumeAt site.skipAt p.template
  simp only [defines, found, runs.labels, once.length_eq, List.length_map]

theorem defines_lt {l : Label} (fits : s.nextLabel.toNat + (p.defines s).length < UInt32.size)
    (member : l ∈ p.defines s) : l.id.toNat < s.nextLabel.toNat + (p.defines s).length := by
  match found : p.site s with
  | .error e => simp [defines, found] at member
  | .ok site =>
    have size : (p.defines s).length = p.template.symbols.dedup.length := by simp [defines_eq found]
    rw [defines_eq found, List.mem_reverse] at member
    rw [size] at fits ⊢
    exact ((Stream.mem_upcoming_iff fits).mp member).2

theorem apply_counts (counted : s.Counted) (start : s.nextLabel.toNat ≤ n)
    (fits : n + (p.defines s).length < UInt32.size) :
    ({ s with nextLabel := s.nextLabel + .ofNat (p.defines s).length } : Stream).Counts
      (p.apply s).2 (n + (p.defines s).length) := by
  have value := Stream.toNat_ahead (c := s.nextLabel) (i := (p.defines s).length) (by omega)
  have grown : s.nextLabel ≤ s.nextLabel + .ofNat (p.defines s).length :=
    UInt32.le_iff_toNat_le.mpr (value ▸ Nat.le_add_right _ _)
  have raised := (Stream.Counts.refl counted start).raise grown
    (value ▸ Nat.add_le_add_right start _)
  have ahead := Stream.Counts.refl raised.counted raised.most
  match found : p.site s with
  | .error e =>
    have none : (p.defines s).length = 0 := by simp [defines, found]
    have same : ({ s with nextLabel := s.nextLabel + .ofNat (p.defines s).length } : Stream) = s := by
      simp [none]
    rw [same] at ahead ⊢
    simpa only [apply, found] using ahead
  | .ok site =>
    have size : (p.defines s).length = p.template.symbols.dedup.length := by
      simp [defines_eq found]
    refine apply_at_site (P := fun t => Stream.Counts _ t _) found
      (fun l q counts => counts.retarget l q) ?_
    obtain ⟨name, lowered⟩ :=
      Template.lower_lowered (p.loads site) s site.resumeAt site.skipAt p.template
    dsimp only
    rw [lowered.stream, ← size]
    refine ahead.insertBefore fits _ fun l bound => ?_
    obtain ⟨⟨k, binding⟩, member, rfl⟩ := List.mem_map.mp bound
    obtain ⟨symbol, known, rfl, -⟩ := (lowered.bound k binding).mp member
    have among := lowered.labels.mem_iff.mp
      (List.mem_map_of_mem (List.mem_dedup.mpr known))
    have below := ((Stream.mem_upcoming_iff (by omega)).mp among).2
    exact Nat.lt_of_lt_of_le below (by omega)

end Point

namespace Stream

variable {s : Stream} {named defined : List Label} {n : Nat}

theorem Edit.counts {e : Edit} (counted : s.Counted) (start : s.nextLabel.toNat ≤ n)
    (below : ∀ l ∈ e.names, l.id.toNat < n) (fits : n + (e.defines s).length < UInt32.size) :
    s.Counts (e.perform s) (n + (e.defines s).length) ∧
      ∀ l ∈ e.defines s, l.id < (e.perform s).nextLabel := by
  have same : s.Counts s n := .refl counted start
  have first : n + 1 < UInt32.size → s.nextLabel < s.nextLabel + 1 := fun fits =>
    lt_succ (by omega)
  have silent : ∀ {next : UInt32}, ∀ l ∈ ([] : List Label), l.id < next :=
    fun _ member => absurd member List.not_mem_nil
  cases e with
  | defineLabel | cursorDefine =>
    refine ⟨same.defineLabel fits, fun l member => ?_⟩
    obtain rfl := List.mem_singleton.mp member
    exact first fits
  | cursorMark current =>
    cases current with
    | none => exact ⟨same, silent⟩
    | some p =>
      have defined := same.defineLabel fits
      have marked := (Counts.refl defined.counted defined.most).markLabel fits p
        (l := s.defineLabel.1) (Nat.lt_succ_of_le start)
      rw [perform, Cursor.markLabel_stream]
      refine ⟨marked.of_le defined.grown, fun l member => ?_⟩
      obtain rfl := List.mem_singleton.mp member
      exact UInt32.lt_of_lt_of_le (first fits) marked.grown
  | splice p =>
    change n + (p.defines s).length < UInt32.size at fits
    have value := toNat_ahead (c := s.nextLabel) (i := (p.defines s).length) (by omega)
    have counts := p.apply_counts counted start fits
    refine ⟨counts.of_le (UInt32.le_iff_toNat_le.mpr (value ▸ Nat.le_add_right _ _)),
      fun l member => UInt32.lt_of_lt_of_le (UInt32.lt_iff_toNat_lt.mpr ?_) counts.grown⟩
    rw [value]
    exact p.defines_lt (by omega) member
  | markLabel l p =>
    exact ⟨same.markLabel fits p (below l List.mem_cons_self), silent⟩
  | retarget l p => exact ⟨same.retarget l p, silent⟩
  | insertBefore p b => exact ⟨same.insertBefore fits p below, silent⟩
  | insertAfter p b => exact ⟨same.insertAfter fits p below, silent⟩
  | append b => exact ⟨same.insertBetween fits below, silent⟩
  | remove span => exact ⟨same.remove span, silent⟩
  | replace p insn => exact ⟨same.replace p insn, silent⟩
  | setReturns => exact ⟨⟨counted, same.grown, start⟩, silent⟩
  | emit current insn =>
    exact ⟨same.emitBlock fits current fun _ member => absurd member List.not_mem_nil, silent⟩
  | emitBlock current b => exact ⟨same.emitBlock fits current below, silent⟩
  | emitAfter current insn =>
    exact ⟨same.emitBlockAfter fits current fun _ member => absurd member List.not_mem_nil, silent⟩
  | emitBlockAfter current b => exact ⟨same.emitBlockAfter fits current below, silent⟩

/-! ### The labels of a history -/

/-- Where the labels named from outside are below `n` and the labels defined fit behind it, the number
of the next label is above all of them. -/
theorem History.counts (history : History s named defined) (below : ∀ l ∈ named, l.id.toNat < n)
    (fits : n + defined.length < UInt32.size) :
    s.Counts s (n + defined.length) ∧ ∀ l ∈ defined, l.id < s.nextLabel := by
  induction history with
  | new => exact ⟨.refl (counted_iff.mpr nofun) (Nat.zero_le _), nofun⟩
  | loaded loads => exact ⟨ofBody_counts loads fits below, nofun⟩
  | @edited s named defined e _ ih =>
    rw [List.length_append] at fits ⊢
    obtain ⟨before, earlier⟩ :=
      ih (fun l member => below l (List.mem_append_right _ member)) (by omega)
    obtain ⟨after, now⟩ := e.counts before.counted before.most
      (fun l member => Nat.lt_of_lt_of_le (below l (List.mem_append_left _ member)) (by omega))
      (by omega)
    refine ⟨.refl after.counted (by have := after.most; omega), fun l member => ?_⟩
    rcases List.mem_append.mp member with new | old
    · exact now l new
    · exact UInt32.lt_of_lt_of_le (earlier l old) after.grown

theorem History.room (history : History s named defined) (below : ∀ l ∈ named, l.id.toNat < n)
    {m : Nat} (fits : n + defined.length + m < UInt32.size) : s.HasRoom m := by
  obtain ⟨counts, -⟩ := history.counts below (Nat.lt_of_le_of_lt (Nat.le_add_right _ m) fits)
  have most := counts.most
  exact ⟨counts.counted, by omega⟩

end Stream

end Interpose
