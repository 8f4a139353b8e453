import Interpose.Proofs.Stream.Linked
import Interpose.Proofs.Stream.WellFormed

/-!
The operations of a represented stream: insertion at the place of a position, spans, removal,
replacement, and loading. Each comes back with what the list gives for it.
-/

set_option autoImplicit false
set_option relaxedAutoImplicit false

namespace Interpose.LinkedStream

open Interpose.Stream (splitAt? split_none_iff split_cell contains_iff numbered countPast)

variable {σ : Type} {m : SlotMap σ} {s : Stream} {k : LinkedStream σ} {b : Block}

/-! ### Insertion -/

namespace Represents

theorem insertBetween (lawful : m.Lawful) (rep : Represents m k s) {before after : List Cell}
    (whole : s.cells = before ++ after) :
    ∃ t, k.insertBetween m (exit none before) (entry after none) b =
        some ((s.insertBetween before after b).1, t) ∧
      Represents m t (s.insertBetween before after b).2 := by
  have checked : b.check k.labels (k.contains m) = s.checkBlock b := by
    rw [rep.labels, rep.contains, Block.check_eq]
  match result : s.checkBlock b with
  | .error e =>
    simp only [LinkedStream.insertBetween, Stream.insertBetween, checked, result]
    exact ⟨k, rfl, rep⟩
  | .ok () =>
    obtain ⟨t, committed, after⟩ := rep.commit lawful whole (Stream.checkBlock_iff.mp result)
    refine ⟨t, ?_, ?_⟩
    · simp only [LinkedStream.insertBetween, Stream.insertBetween, checked, result, committed,
        Option.map_some]
    · simp only [Stream.insertBetween, result]
      exact after

theorem absent (rep : Represents m k s) {p : Position} (lost : splitAt? p s.cells = none) :
    k.contains m p = false := by
  rw [rep.contains, ← Bool.not_eq_true, contains_iff]
  exact split_none_iff.mp lost

theorem split_node (rep : Represents m k s) {p : Position} {before onward : List Cell}
    (split : splitAt? p s.cells = some (before, onward)) :
    ∃ c after, onward = c :: after ∧ c.pos = p ∧ s.cells = before ++ c :: after ∧
      k.contains m p = true ∧ k.insn? m p = some c.insn ∧ k.prev? m p = exit none before ∧
      k.next? m p = entry after none := by
  obtain ⟨c, after, rfl, rfl, whole⟩ := split_cell split
  have found := rep.node whole
  refine ⟨c, after, rfl, rfl, whole, ?_, ?_, ?_, ?_⟩
  · simp [LinkedStream.contains, found]
  · simp [LinkedStream.insn?, found]
  · simp [LinkedStream.prev?, found]
  · simp [LinkedStream.next?, found]

theorem insertBefore (lawful : m.Lawful) (rep : Represents m k s) (p : Position) :
    ∃ t, k.insertBefore m p b = some ((s.insertBefore p b).1, t) ∧
      Represents m t (s.insertBefore p b).2 := by
  match split : splitAt? p s.cells with
  | none =>
    simp only [LinkedStream.insertBefore, Stream.insertBefore, split, rep.absent split]
    exact ⟨k, rfl, rep⟩
  | some (before, onward) =>
    obtain ⟨c, after, rfl, rfl, whole, present, -, previous, -⟩ := rep.split_node split
    simp only [LinkedStream.insertBefore, Stream.insertBefore, split, present, previous, if_true]
    exact rep.insertBetween lawful whole

theorem insertAfter (lawful : m.Lawful) (rep : Represents m k s) (p : Position) :
    ∃ t, k.insertAfter m p b = some ((s.insertAfter p b).1, t) ∧
      Represents m t (s.insertAfter p b).2 := by
  match split : splitAt? p s.cells with
  | none =>
    simp only [LinkedStream.insertAfter, Stream.insertAfter, split, rep.absent split]
    exact ⟨k, rfl, rep⟩
  | some (before, onward) =>
    obtain ⟨c, after, rfl, rfl, whole, present, -, -, next⟩ := rep.split_node split
    have apart : s.cells = (before ++ [c]) ++ after := by simpa using whole
    have result := rep.insertBetween (b := b) lawful apart
    rw [exit_concat] at result
    simpa only [LinkedStream.insertAfter, Stream.insertAfter, split, present, next, if_true,
      List.take_succ_cons, List.take_zero, List.drop_succ_cons, List.drop_zero] using result

theorem append (lawful : m.Lawful) (rep : Represents m k s) :
    ∃ t, k.append m b = some ((s.append b).1, t) ∧ Represents m t (s.append b).2 := by
  have result := rep.insertBetween (b := b) lawful (List.append_nil _).symm
  rwa [entry_nil, ← rep.tail] at result

end Represents

/-! ### Walking along the links -/

section Walking

variable {before after : Option Position} {cells : List Cell} {c : Cell}

theorem Chained.leads (chained : Chained m k.nodes before (c :: cells) after) :
    k.next? m c.pos = entry cells after := by
  simp [next?, chained.1]

theorem walk_chained (chained : Chained m k.nodes before cells none) :
    k.walk m (entry cells none) = some (cells.map (·.pos)) := by
  induction cells generalizing before with
  | nil => rw [entry_nil, walk]; rfl
  | cons c cells ih =>
    rw [entry_cons, walk]
    simp only [chained.leads, ih chained.2, Option.bind_eq_bind, Option.bind_some, List.map_cons]

theorem walkTo_chained (chained : Chained m k.nodes before cells none) (last : Position) :
    k.walkTo m last (entry cells none) = some (match splitAt? last cells with
      | some (inner, final) => .ok ((inner ++ final.take 1).map (·.pos))
      | none => .error .invalidSpan) := by
  induction cells generalizing before with
  | nil => rw [entry_nil, walkTo]; rfl
  | cons c cells ih =>
    rw [entry_cons, walkTo]
    by_cases here : c.pos = last
    · simp [splitAt?, here]
    · simp only [if_neg here, chained.leads, ih chained.2, splitAt?, Option.bind_eq_bind,
        Option.bind_some]
      cases splitAt? last cells <;> rfl

end Walking

namespace Represents

theorem positions (rep : Represents m k s) : k.positions m = some s.positions := by
  rw [LinkedStream.positions, rep.front.head]
  exact walk_chained rep.front.chained

theorem spanPositions (rep : Represents m k s) (span : Span) :
    k.spanPositions m span = some (s.spanPositions span) := by
  match first : splitAt? span.first s.cells with
  | none =>
    simp [LinkedStream.spanPositions, Stream.spanPositions, Stream.cut, first, rep.absent first]
  | some (before, onward) =>
    match last : splitAt? span.last s.cells with
    | none =>
      simp [LinkedStream.spanPositions, Stream.spanPositions, Stream.cut, first, last,
        rep.absent last]
    | some (front, final) =>
      obtain ⟨c, after, rfl, start, whole, present, -⟩ := rep.split_node first
      obtain ⟨-, -, -, -, -, presentLast, -⟩ := rep.split_node last
      have walked := walkTo_chained (rep.parts whole).2.chained span.last
      rw [entry_cons, start] at walked
      simp only [LinkedStream.spanPositions, present, presentLast, Bool.and_self, if_true, walked,
        Stream.spanPositions, Stream.cut, first, last]
      cases splitAt? span.last (c :: after) <;> rfl

end Represents

/-! ### Removal -/

theorem discard_cons (nodes : σ) (p : Position) (rest : List Position) :
    discard m nodes (p :: rest) =
      (((m.remove nodes p).1.map (·.insn)).toList ++ (discard m (m.remove nodes p).2 rest).1,
        (discard m (m.remove nodes p).2 rest).2) := rfl

theorem discard_all (lawful : m.Lawful) {nodes : σ} {cells : List Cell}
    (there : ∀ c ∈ cells, ∃ prev next, m.get? nodes c.pos = some ⟨c.insn, prev, next⟩)
    (distinct : (cells.map (·.pos)).Nodup) :
    (discard m nodes (cells.map (·.pos))).1 = cells.map (·.insn) ∧
    (∀ p, m.get? (discard m nodes (cells.map (·.pos))).2 p =
      if p ∈ cells.map (·.pos) then none else m.get? nodes p) ∧
    m.size (discard m nodes (cells.map (·.pos))).2 + cells.length = m.size nodes ∧
    m.issued (discard m nodes (cells.map (·.pos))).2 = m.issued nodes := by
  induction cells generalizing nodes with
  | nil => simp [discard]
  | cons c cells ih =>
    obtain ⟨prev, next, found⟩ := there c List.mem_cons_self
    rw [List.map_cons, List.nodup_cons] at distinct
    obtain ⟨new, rest⟩ := distinct
    have others : ∀ d ∈ cells, ∃ prev next,
        m.get? (m.remove nodes c.pos).2 d.pos = some ⟨d.insn, prev, next⟩ := by
      intro d member
      have apart : d.pos ≠ c.pos := by
        intro same
        rw [← same] at new
        exact new (List.mem_map_of_mem member)
      rw [lawful.get_remove, if_neg apart]
      exact there d (List.mem_cons_of_mem _ member)
    obtain ⟨code, get, size, issued⟩ := ih others rest
    have smaller := lawful.size_remove found
    simp only [List.map_cons, discard_cons, lawful.removed, found]
    refine ⟨by simp [code], fun p => ?_, ?_, issued.trans (lawful.issued_remove _ _)⟩
    · rw [get, lawful.get_remove]
      by_cases here : p = c.pos <;> simp [here]
    · rw [List.length_cons]
      omega

theorem insert_all_eq (labels : LabelTable Position) (p : Position) (doomed : List Position) :
    ((labels.entries.filter fun e => doomed.contains e.2).map (·.1)).foldl
        (fun labels l => labels.insert l p) labels =
      labels.filterMap fun q => some (if doomed.contains q then p else q) := by
  have find : ∀ (ls : List Label) (table : LabelTable Position) (l : Label),
      (ls.foldl (fun table l => table.insert l p) table).find? l =
        if l ∈ ls then some p else table.find? l := by
    intro ls
    induction ls with
    | nil => simp
    | cons first ls ih =>
      intro table l
      rw [List.foldl_cons, ih, LabelTable.find?_insert]
      by_cases later : l ∈ ls <;> simp [later]
  refine LabelTable.ext_find? fun l => ?_
  have moved : l ∈ (labels.entries.filter fun e => doomed.contains e.2).map (·.1) ↔
      ∃ q, labels.find? l = some q ∧ q ∈ doomed := by
    simp [LabelTable.find?_eq_some_iff]
  rw [find, LabelTable.find?_filterMap]
  simp only [moved]
  cases labels.find? l with
  | none => simp
  | some q => by_cases inside : q ∈ doomed <;> simp [inside]

namespace Represents

theorem cutOut (lawful : m.Lawful) (rep : Represents m k s) {before inside after : List Cell}
    (whole : s.cells = before ++ inside ++ after) (moved : List Label) :
    ∃ t, k.cutOut m (exit none before) (entry after none) (inside.map (·.pos)) moved =
        some (inside.map (·.insn), t) ∧
      Represents m t { s with
        cells := before ++ after
        labels := (entry after none).elim s.labels fun p =>
          moved.foldl (fun labels l => labels.insert l p) s.labels } := by
  have distinct := rep.distinct
  simp only [Stream.positions, whole, List.map_append, List.nodup_append', List.append_assoc]
    at distinct
  obtain ⟨distinctBefore, ⟨distinctInside, distinctAfter, apart⟩, apartBefore⟩ := distinct
  have front := (rep.parts (whole.trans (List.append_assoc ..))).1
  obtain ⟨middle, back⟩ := rep.parts whole
  obtain ⟨t, ledOn, frontT, tail, rewiredT⟩ :=
    front.linkNext lawful distinctBefore (entry after none)
  have outsideBefore : ∀ {p}, p ∈ inside.map (·.pos) ∨ p ∈ after.map (·.pos) →
      p ∉ before.map (·.pos) := fun member here =>
    apartBefore here (List.mem_append.mpr member)
  have backT := back.congr tail fun p member => rewiredT.elsewhere p (outsideBefore (.inr member))
  obtain ⟨u, ledBack, backU, head, rewiredU⟩ :=
    backT.linkPrev lawful distinctAfter (exit none before)
  have frontU := frontT.congr head fun p member =>
    rewiredU.elsewhere p fun there => outsideBefore (.inr there) member
  have rewired := rewiredT.trans rewiredU
  have there : ∀ c ∈ inside, ∃ prev next, m.get? u.nodes c.pos = some ⟨c.insn, prev, next⟩ := by
    intro c member
    have place := List.mem_map_of_mem (f := Cell.pos) member
    rw [rewired.elsewhere c.pos (by
      rw [List.mem_append, not_or]
      exact ⟨outsideBefore (.inl place), apart place⟩)]
    exact rep.front.chained.mem (by simp [whole, member])
  obtain ⟨code, get, size, issued⟩ := discard_all lawful there distinctInside
  have keep : ∀ {p}, p ∉ inside.map (·.pos) →
      m.get? (discard m u.nodes (inside.map (·.pos))).2 p = m.get? u.nodes p := fun outside =>
    (get _).trans (if_neg outside)
  have sizeU : m.size u.nodes = m.size k.nodes := rewired.size
  refine ⟨_, ?_, of_parts rfl (frontU.congr (t := { u with
      nodes := (discard m u.nodes (inside.map (·.pos))).2
      labels := (entry after none).elim s.labels fun p =>
        moved.foldl (fun labels l => labels.insert l p) s.labels })
      rfl fun p member => keep fun here => outsideBefore (.inl here) member)
    (backU.congr rfl fun p member => keep fun here => apart here member)
    ?_ ?_ ?_ ?_ rfl ?_ ?_⟩
  · have labels : u.labels = s.labels := rewired.labels.trans rep.labels
    simp only [LinkedStream.cutOut, ledOn, ledBack, Option.bind_eq_bind, Option.bind_some, labels, code]
    cases after <;> rfl
  · intro p node found
    have outside : p ∉ inside.map (·.pos) := by
      intro here
      rw [get, if_pos here] at found
      cases found
    rw [keep outside] at found
    by_contra absent
    simp only [Stream.positions, List.map_append, List.mem_append, not_or] at absent
    rw [rewired.elsewhere p (by simpa using absent)] at found
    have old := rep.only found
    simp only [Stream.positions, whole, List.map_append, List.mem_append] at old
    tauto
  · simp only [Stream.positions, List.map_append]
    exact List.Nodup.append distinctBefore distinctAfter fun p here there =>
      outsideBefore (.inr there) here
  · have total := rep.size
    rw [whole] at total
    simp only [List.length_append] at total ⊢
    omega
  · rw [issued, rewired.issued]
    exact rep.issued
  · exact rewired.nextLabel.trans rep.nextLabel
  · exact rewired.returns.trans rep.returns

theorem prev_of_span (rep : Represents m k s) {before inside after : List Cell} {p : Position}
    (whole : s.cells = before ++ inside ++ after) (start : (inside.map (·.pos)).head? = some p) :
    k.prev? m p = exit none before := by
  cases inside with
  | nil => cases start
  | cons c rest =>
    have here : c.pos = p := by simpa using start
    rw [← here, LinkedStream.prev?, rep.node (by simpa using whole)]
    rfl

theorem next_of_span (rep : Represents m k s) {before inside after : List Cell} {p : Position}
    (whole : s.cells = before ++ inside ++ after)
    (stop : (inside.map (·.pos)).getLast? = some p) : k.next? m p = entry after none := by
  cases inside using List.reverseRecOn with
  | nil => cases stop
  | append_singleton rest c =>
    have here : c.pos = p := by simpa using stop
    have node := rep.node (show s.cells = (before ++ rest) ++ c :: after by simpa using whole)
    rw [← here, LinkedStream.next?, node]
    rfl

theorem remove (lawful : m.Lawful) (rep : Represents m k s) (span : Span) :
    ∃ t, k.remove m span = some ((s.remove span).1, t) ∧ Represents m t (s.remove span).2 := by
  have doomed := rep.spanPositions span
  match cut : s.cut span with
  | .error e =>
    simp only [Stream.spanPositions, cut] at doomed
    simp only [LinkedStream.remove, Stream.remove, doomed, cut]
    exact ⟨k, rfl, rep⟩
  | .ok (before, inside, after) =>
    simp only [Stream.spanPositions, cut] at doomed
    have whole := Stream.cut_whole cut
    obtain ⟨start, stop⟩ := Stream.cut_ends cut
    have previous := rep.prev_of_span whole start
    have next := rep.next_of_span whole stop
    have done := rep.cutOut lawful whole
      ((s.labels.entries.filter fun e => (inside.map (·.pos)).contains e.2).map (·.1))
    cases after with
    | nil =>
      simp only [LinkedStream.remove, doomed, previous, next, rep.labels, Stream.remove, cut]
      cases moved : (s.labels.entries.filter fun e =>
          (inside.map (·.pos)).contains e.2).map (·.1) with
      | cons l ls => exact ⟨k, rfl, rep⟩
      | nil =>
        rw [moved] at done
        obtain ⟨t, cutOut, after⟩ := done
        refine ⟨t, ?_, after⟩
        simp only [entry_nil] at cutOut ⊢
        simp only [cutOut, Option.map_some]
    | cons c rest =>
      obtain ⟨t, cutOut, after⟩ := done
      have removed : s.remove span = (.ok (inside.map (·.insn)), { s with
          cells := before ++ c :: rest
          labels := s.labels.filterMap fun p =>
            some (if (inside.map (·.pos)).contains p then c.pos else p) }) := by
        simp [Stream.remove, cut]
      rw [removed]
      refine ⟨t, ?_, ?_⟩
      · rw [entry_cons] at cutOut next
        simpa [LinkedStream.remove, doomed, previous, next, rep.labels] using cutOut
      · rw [entry_cons, Option.elim_some, insert_all_eq] at after
        exact after

/-! ### Replacement -/

theorem replace (lawful : m.Lawful) (rep : Represents m k s) (p : Position) (insn : Instruction) :
    (k.replace m p insn).1 = (s.replace p insn).1 ∧
      Represents m (k.replace m p insn).2 (s.replace p insn).2 := by
  simp only [LinkedStream.replace, Stream.replace, rep.labels]
  cases insn.branchTargets.find? fun l => !s.labels.contains l with
  | some l => exact ⟨rfl, rep⟩
  | none =>
    rcases split : splitAt? p s.cells with _ | ⟨before, onward⟩
    · have gone : m.get? k.nodes p = none := by
        simpa [LinkedStream.contains] using rep.absent split
      have unknown : s.insn? p = none := by simp [Stream.insn?, Stream.onward, split]
      simp only [gone, unknown]
      exact ⟨trivial, rep⟩
    · obtain ⟨c, after, rfl, rfl, whole, -⟩ := rep.split_node split
      have found := rep.node whole
      have known : s.insn? c.pos = some c.insn := by simp [Stream.insn?, Stream.onward, split]
      have cells := Stream.replaced_cells rep.distinct whole insn
      have places : (before ++ ⟨c.pos, insn⟩ :: after).map (·.pos) = s.positions := by
        simp [Stream.positions, whole]
      have rewired := rewired_set lawful found ⟨insn, exit none before, entry after none⟩
      have chained := rep.front.chained
      have distinct := rep.distinct
      rw [Stream.positions, whole] at distinct
      rw [whole] at chained
      simp only [found, known]
      refine ⟨trivial, ⟨⟨?_, ?_⟩, ?_, ?_, ?_, ?_, ?_, rfl, rep.nextLabel, rep.returns⟩⟩
      · rw [cells]
        exact chained.overwrite lawful distinct insn
      · rw [cells, rep.front.head, whole, entry_append, entry_append, entry_cons, entry_cons]
      · rw [cells, rep.tail, whole, exit_append, exit_append, exit_cons, exit_cons]
      · intro p node there
        rw [Stream.positions, cells, places]
        by_cases here : p = c.pos
        · rw [here, Stream.positions, whole]
          simp
        · rw [rewired.elsewhere p (by simpa using here)] at there
          exact rep.only there
      · rw [Stream.positions, cells, places]
        exact rep.distinct
      · refine rewired.size.trans ?_
        rw [rep.size, List.length_map, Nat.add_zero]
      · exact rewired.issued.trans rep.issued

/-! ### Loading -/

theorem empty (lawful : m.Lawful) (returns : Bool) :
    Represents m { LinkedStream.empty m with returns } { Stream.empty with returns } where
  front := ⟨trivial, rfl⟩
  tail := rfl
  only {p node} found := by
    change m.get? m.empty p = some node at found
    rw [lawful.get_empty] at found
    cases found
  distinct := List.nodup_nil
  size := lawful.size_empty
  issued := lawful.issued_empty
  labels := rfl
  nextLabel := rfl
  returns := rfl

theorem linkBack (lawful : m.Lawful) (rep : Represents m k s) (insn : Instruction) :
    ∃ t, k.linkBack m insn = some (⟨s.nextSerial⟩, t) ∧ Represents m t { s with
      cells := s.cells ++ [⟨⟨s.nextSerial⟩, insn⟩]
      nextSerial := s.nextSerial + 1 } := by
  obtain ⟨t, linked, front, -, rewired⟩ := rep.front.extend lawful rep.distinct insn
  have position := lawful.insert_position k.nodes ⟨insn, exit none s.cells, none⟩
  rw [rep.issued] at linked front rewired position
  have places : (s.cells ++ [(⟨⟨s.nextSerial⟩, insn⟩ : Cell)]).map (·.pos) =
      s.positions ++ [⟨s.nextSerial⟩] := by
    simp [Stream.positions]
  have new : (⟨s.nextSerial⟩ : Position) ∉ s.positions := by
    intro old
    have before := rep.front.chained.serial_lt lawful old
    rw [rep.issued] at before
    exact Nat.lt_irrefl _ before
  refine ⟨{ t with tail := some ⟨s.nextSerial⟩ }, ?_,
    ⟨⟨front.chained, front.head⟩, ?_, ?_, ?_, ?_, rewired.issued.trans ?_,
      rewired.labels.trans rep.labels, rewired.nextLabel.trans rep.nextLabel,
      rewired.returns.trans rep.returns⟩⟩
  · rw [← rep.tail] at linked position
    simp only [LinkedStream.linkBack, position, linked, Option.bind_eq_bind, Option.bind_some]
  · change _ = exit none (s.cells ++ [_])
    rw [exit_concat]
  · intro p node found
    rw [Stream.positions, places]
    by_contra absent
    rw [rewired.elsewhere p absent] at found
    exact absent (List.mem_append_left _ (rep.only found))
  · rw [Stream.positions, places]
    refine List.Nodup.append rep.distinct (List.nodup_singleton _) fun p old here => ?_
    obtain rfl := List.mem_singleton.mp here
    exact new old
  · refine rewired.size.trans ?_
    rw [rep.size, List.length_append, List.length_singleton]
  · rw [rep.issued]

theorem linkAll (lawful : m.Lawful) (rep : Represents m k s) (code : List Instruction) :
    ∃ t, k.linkAll m code = some ((numbered s.nextSerial code).map (·.pos), t) ∧
      Represents m t { s with
        cells := s.cells ++ numbered s.nextSerial code
        nextSerial := s.nextSerial + code.length } := by
  induction code generalizing k s with
  | nil => exact ⟨k, rfl, by simpa [numbered] using rep⟩
  | cons insn code ih =>
    obtain ⟨t, linked, one⟩ := rep.linkBack lawful insn
    obtain ⟨u, others, all⟩ := ih one
    refine ⟨u, ?_, ?_⟩
    · simp only [linkAll, linked, others, Option.bind_eq_bind, Option.bind_some, numbered,
        List.map_cons]
    · simpa [numbered, Nat.add_comm, Nat.add_left_comm] using all

theorem ofInstructions (lawful : m.Lawful) (code : List Instruction) :
    ∃ t, LinkedStream.ofInstructions m code = some t ∧
      Represents m t (Stream.ofInstructions code) := by
  obtain ⟨t, linked, all⟩ := (empty lawful false).linkAll lawful code
  refine ⟨t, ?_, ?_⟩
  · have whole : (LinkedStream.empty m).linkAll m code = _ := linked
    simp only [LinkedStream.ofInstructions, whole, Option.map_some]
  · simpa [Stream.ofInstructions, Stream.empty] using all

end Represents

theorem placeLabels_eq (code : List Instruction) (table : LabelTable Position)
    (entries : List (Label × Nat)) :
    placeLabels ((numbered 0 code).map (·.pos)) table entries =
      match entries.find? fun e => code.length ≤ e.2 with
      | some (l, _) => .error (.unboundLabel l)
      | none => .ok (entries.foldl (fun table e => table.insert e.1 ⟨e.2⟩) table) := by
  induction entries generalizing table with
  | nil => rfl
  | cons e entries ih =>
    obtain ⟨l, index⟩ := e
    by_cases beyond : code.length ≤ index
    · simp [placeLabels, beyond]
    · have found := numbered_getElem 0 code (Nat.not_le.mp beyond)
      rw [Nat.zero_add] at found
      simp [placeLabels, found, beyond, ih]

theorem insert_entries_eq (labels : LabelTable Nat) :
    labels.entries.foldl (fun table e => table.insert e.1 (⟨e.2⟩ : Position)) .empty =
      labels.filterMap fun index => some ⟨index⟩ := by
  have find : ∀ (entries : List (Label × Nat)) (table : LabelTable Position) (l : Label),
      entries.Pairwise (fun a b => a.1.id < b.1.id) →
      (entries.foldl (fun table e => table.insert e.1 ⟨e.2⟩) table).find? l =
        (((entries.find? fun e => e.1 = l).map (·.2)).map Position.mk).or (table.find? l) := by
    intro entries
    induction entries with
    | nil => simp
    | cons e entries ih =>
      intro table l sorted
      obtain ⟨first, sorted⟩ := List.pairwise_cons.mp sorted
      rw [List.foldl_cons, ih _ _ sorted, LabelTable.find?_insert]
      by_cases here : e.1 = l
      · have once : (entries.find? fun e => e.1 = l) = none := by
          refine List.find?_eq_none.mpr fun d member same => ?_
          have less := first d member
          rw [here, of_decide_eq_true same] at less
          exact Nat.lt_irrefl _ less
        simp [here, once]
      · simp [here, Ne.symm here]
  refine LabelTable.ext_find? fun l => ?_
  rw [find _ _ _ labels.sorted, LabelTable.find?_filterMap]
  change ((labels.find? l).map Position.mk).or none = _
  cases labels.find? l <;> rfl

theorem labelAbove_eq (table : LabelTable Position) (n : UInt32) (ls : List Label) :
    labelAbove table n ls =
      match ls.find? fun l => !table.contains l with
      | some l => .error (.unboundLabel l)
      | none => .ok (countPast n ls) := by
  induction ls generalizing n with
  | nil => rfl
  | cons l ls ih =>
    by_cases bound : table.contains l = true
    · simp [labelAbove, bound, ih, countPast]
    · simp [labelAbove, bound]

theorem ofBody_eq (lawful : m.Lawful) (b : Body) :
    match Stream.ofBody b with
    | .error e => LinkedStream.ofBody m b = some (.error e)
    | .ok s => ∃ t, LinkedStream.ofBody m b = some (.ok t) ∧ Represents m t s := by
  obtain ⟨t, linked, all⟩ := (Represents.empty lawful b.returns).linkAll lawful b.code
  have known : ∀ l, (b.labels.filterMap fun index => some (⟨index⟩ : Position)).contains l =
      b.labels.contains l := by
    intro l
    rw [Bool.eq_iff_iff, LabelTable.contains_iff, LabelTable.contains_iff,
      LabelTable.find?_filterMap]
    cases b.labels.find? l <;> simp
  change LinkedStream.linkAll m { LinkedStream.empty m with returns := b.returns } b.code =
    some ((numbered 0 b.code).map (·.pos), t) at linked
  simp only [LinkedStream.ofBody, linked, Option.bind_eq_bind, Option.bind_some, placeLabels_eq,
    Stream.ofBody]
  cases b.labels.entries.find? fun e => b.code.length ≤ e.2 with
  | some e => rfl
  | none =>
    simp only [insert_entries_eq, labelAbove_eq, known]
    cases (Stream.targets b).find? fun l => !b.labels.contains l with
    | some l => rfl
    | none =>
      refine ⟨_, rfl, ?_⟩
      have relabelled := all.relabel (b.labels.filterMap fun index => some ⟨index⟩)
        (countPast 0 (b.labels.labels ++ Stream.targets b))
      simpa [Stream.empty, countPast] using relabelled

end Interpose.LinkedStream
