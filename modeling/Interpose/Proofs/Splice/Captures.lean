import Interpose.Proofs.Splice.Refusal

/-!
Captured values. A search for one comes to the instructions in front of the anchor, or to those behind
it, the nearest first, and takes the one with its number among those that the predicate accepts. What
pushes the value again is that instruction alone, or together with the load of the receiver, and it
leaves one value on whatever is on the stack, as its stand-in did when the point was built.
-/

set_option autoImplicit false
set_option relaxedAutoImplicit false

namespace Interpose

/-! ### One value more -/

/-- Control runs from one state to another straight on, and no instruction takes what was on the stack
up to some depth. -/
inductive Body.Straight (b : Body) (floor : Nat) : State → State → Prop
  | done {s : State} : Straight b floor s s
  | step {i d e : Nat} {insn : Instruction} {t : State} : b.code[i]? = some insn →
      floor + insn.stackEffect.pops ≤ d → b.successors i d = .ok [(i + 1, e)] →
      Straight b floor (i + 1, e) t → Straight b floor (i, d) t

/-- In any body and from any depth, some code runs straight through above what is on the stack and
leaves one value more. -/
def AddsOne (code : List Instruction) : Prop :=
  ∀ (b : Body) (front back : List Instruction) (next : Instruction),
    b.code = front ++ code ++ next :: back → ∀ depth,
      b.Straight depth (front.length, depth) (front.length + code.length, depth + 1)

/-- Each instruction of code that pushes a value goes on to the next one in every body that has the
code, and takes none of the values that were on the stack. -/
theorem Pushes.goesOn {code : List Instruction} (pushes : Pushes code) {b : Body}
    {front back : List Instruction} {next : Instruction}
    (whole : b.code = front ++ code ++ next :: back) (depth : Nat) {x : Nat} {insn : Instruction}
    (here : code[x]? = some insn) :
    b.code[front.length + x]? = some insn ∧ depth + insn.stackEffect.pops ≤ depth + x ∧
      b.successors (front.length + x) (depth + x) = .ok [(front.length + x + 1, depth + 1)] := by
  have inside := (List.getElem?_eq_some_iff.mp here).1
  obtain ⟨-, falls, stays, effect⟩ := pushes.effect here
  have there : b.code[front.length + x]? = some insn := by
    rw [whole, List.append_assoc, List.getElem?_append_right (by omega),
      Nat.add_sub_cancel_left, List.getElem?_append_left inside, here]
  -- what it takes from an empty stack is what the code has put there
  have own : insn.stackEffect.pops ≤ 0 + x := (effect 0).1
  refine ⟨there, by omega, ?_⟩
  rw [Body.successors_at there, Body.successorsOf_iff]
  refine ⟨(effect depth).1, fun ret => absurd ret stays, fun _ => ?_, [], ?_, ?_⟩
  · simp only [whole, List.length_append, List.length_cons]
    omega
  · rw [pushes.branchTargets here]
    exact .nil
  · rw [if_pos falls, (effect depth).2]
    rfl

theorem Pushes.addsOne {code : List Instruction} (pushes : Pushes code) : AddsOne code := by
  intro b front back next whole depth
  have length := pushes.length
  obtain ⟨there, above, leads⟩ :=
    pushes.goesOn whole depth (x := 0) (List.getElem?_eq_getElem length.1)
  by_cases one : code.length = 1
  · rw [one]
    exact .step there above leads .done
  · have two : code.length = 2 := by omega
    obtain ⟨there', above', leads'⟩ :=
      pushes.goesOn whole depth (x := 1) (List.getElem?_eq_getElem (two ▸ Nat.one_lt_two))
    rw [two]
    exact .step there above leads (.step there' above' leads' .done)

/-! ### The search -/

namespace Stream

variable {s : Stream}

/-- The cells that a search comes to from an index on, the nearest first. -/
def away (s : Stream) : Direction → Nat → List Cell
  | .backward, i => (s.cells.take i).reverse
  | .forward, i => s.cells.drop (i + 1)

/-- The cells that a search comes to and that a predicate accepts, the nearest first. -/
def hits (s : Stream) (direction : Direction) (predicate : Predicate) (i : Nat) : List Cell :=
  (s.away direction i).filter fun c => predicate.accepts c.insn

theorem away_from (distinct : s.positions.Nodup) {direction : Direction} {i : Nat}
    {near far : List Cell} {c : Cell} (split : s.away direction i = near ++ c :: far) :
    ∃ k, s.index? c.pos = some k ∧ s.away direction k = far := by
  have place : ∀ {before after : List Cell}, s.cells = before ++ c :: after →
      s.index? c.pos = some before.length := by
    intro before after whole
    exact (index_cell distinct).mpr ⟨c, by simp [whole], rfl⟩
  cases direction with
  | backward =>
    obtain ⟨after, whole⟩ : ∃ after, s.cells = far.reverse ++ c :: after := by
      have front : s.cells.take i = far.reverse ++ c :: near.reverse := by
        simpa [away, eq_comm] using congrArg List.reverse split
      exact ⟨near.reverse ++ s.cells.drop i, by
        rw [← List.cons_append, ← List.append_assoc, ← front, List.take_append_drop]⟩
    refine ⟨_, place whole, ?_⟩
    simp [away, whole]
  | forward =>
    obtain ⟨before, whole⟩ : ∃ before, s.cells = before ++ c :: far :=
      ⟨s.cells.take (i + 1) ++ near, by
        rw [List.append_assoc, ← show s.cells.drop (i + 1) = _ from split, List.take_append_drop]⟩
    refine ⟨_, place whole, ?_⟩
    simp [away, whole]

theorem before_at {p : Position} {i : Nat} (index : s.index? p = some i) :
    s.before p = s.cells.take i := by
  obtain ⟨⟨before, onward⟩, split, rfl⟩ := Option.map_eq_some_iff.mp index
  rw [Stream.before, split, (split_iff.mp split).1]
  exact (List.take_left' rfl).symm

theorem insn_before (distinct : s.positions.Nodup) {q : Position} {k : Nat}
    (index : s.index? q = some (k + 1)) : (s.prev? q).bind s.insn? = s.code[k]? := by
  have inside : k < s.cells.length := Nat.lt_of_succ_lt (index_lt index)
  have here : s.index? (s.cells[k]).pos = some k :=
    (index_cell distinct).mpr ⟨_, List.getElem?_eq_getElem inside, rfl⟩
  rw [prev?, before_at index, List.getLast?_take, if_neg (Nat.succ_ne_zero k),
    Nat.add_sub_cancel, List.getElem?_eq_getElem inside]
  exact insn_at here

theorem insn_before_first {q : Position} (index : s.index? q = some 0) :
    (s.prev? q).bind s.insn? = none := by
  rw [prev?, before_at index]
  rfl

end Stream

/-- The matches of a capture around an anchor from one index to another, the nearest first: those in
front of its start, or those behind its end. -/
def Capture.hits (c : Capture) (s : Stream) (i j : Nat) : List Cell :=
  match c.direction with
  | .backward => s.hits .backward c.predicate i
  | .forward => s.hits .forward c.predicate j

/-- An error that tells that a capture cannot be resolved. -/
inductive SpliceError.OfCapture : SpliceError → Prop
  | notFound {point capture : String} : OfCapture (.captureNotFound point capture)
  | unsupported {point capture insn : String} : OfCapture (.unsupportedCapture point capture insn)

namespace Point

variable {p : Point} {s t : Stream} {anchor : Stream.Anchor}

theorem nextMatch_among (distinct : s.positions.Nodup) (direction : Direction)
    (predicate : Predicate) {q : Position} {i : Nat} (index : s.index? q = some i) :
    ∃ current, nextMatch direction predicate ⟨s, some q⟩ =
      Cursor.gotoAmong ⟨s, current⟩ predicate (s.away direction i) := by
  cases direction with
  | backward => exact ⟨some q, by rw [Stream.away, ← Stream.before_at index]; rfl⟩
  | forward =>
    cases behind : s.cells[i + 1]? with
    | none =>
      have nothing : s.next? q = none := by
        rw [Stream.next_eq_position index, Stream.position?, behind]
        rfl
      have past : s.cells.drop (i + 1) = [] := List.drop_eq_nil_of_le (by simpa using behind)
      refine ⟨none, ?_⟩
      simp [nextMatch, Cursor.advance, nothing, Stream.away, past, Cursor.gotoAmong]
    | some c =>
      have next : s.next? q = some c.pos := by
        rw [Stream.next_eq_position index, Stream.position?, behind]
        rfl
      have there : s.index? c.pos = some (i + 1) := (Stream.index_cell distinct).mpr ⟨c, behind, rfl⟩
      refine ⟨some c.pos, ?_⟩
      simp [nextMatch, Cursor.advance, next, Stream.away, Cursor.gotoNext, Cursor.ahead,
        Stream.onward_at there]

/-- A search finds nothing where nothing is accepted. Else it goes to the nearest accepted cell, from
which it comes to the others. -/
theorem nextMatch_cases (distinct : s.positions.Nodup) (direction : Direction)
    (predicate : Predicate) {q : Position} {i : Nat} (index : s.index? q = some i) :
    (s.hits direction predicate i = [] ∧
      ∃ e, (nextMatch direction predicate ⟨s, some q⟩).1 = .error e) ∨
    ∃ c k, nextMatch direction predicate ⟨s, some q⟩ = (.ok c.pos, ⟨s, some c.pos⟩) ∧
      s.index? c.pos = some k ∧
      s.hits direction predicate i = c :: s.hits direction predicate k := by
  obtain ⟨current, next⟩ := nextMatch_among distinct direction predicate index
  rw [next, Cursor.gotoAmong]
  cases first : (s.away direction i).find? fun c => predicate.accepts c.insn with
  | none =>
    refine .inl ⟨List.filter_eq_nil_iff.mpr ?_, _, rfl⟩
    simpa using List.find?_eq_none.mp first
  | some c =>
    obtain ⟨accepted, near, far, split, passed⟩ := List.find?_eq_some_iff_append.mp first
    obtain ⟨k, there, rest⟩ := Stream.away_from distinct split
    refine .inr ⟨c, k, rfl, there, ?_⟩
    rw [Stream.hits, Stream.hits, split, rest, List.filter_append,
      List.filter_eq_nil_iff.mpr (by simpa using passed), List.nil_append, List.filter_cons,
      if_pos accepted]

theorem seek_eq_hit (distinct : s.positions.Nodup) (direction : Direction) (predicate : Predicate)
    (nth : Nat) {q : Position} {i : Nat} (index : s.index? q = some i) :
    seek direction predicate nth ⟨s, some q⟩ =
      ((s.hits direction predicate i)[nth]?).map (·.pos) := by
  induction nth generalizing q i with
  | zero =>
    rw [seek_eq]
    rcases nextMatch_cases distinct direction predicate index with
      ⟨nothing, e, failed⟩ | ⟨c, k, moved, -, hits⟩
    · simp [failed, nothing]
    · simp [moved, hits]
  | succ nth ih =>
    rw [seek_eq]
    rcases nextMatch_cases distinct direction predicate index with
      ⟨nothing, e, failed⟩ | ⟨c, k, moved, there, hits⟩
    · simp [failed, nothing]
    · simp [moved, hits, ih there]

/-- The code that pushes a value again which the instruction with an index of some code pushed. -/
inductive Reproduces (original : List Instruction) : Nat → List Instruction → Prop
  | load {k : Nat} {insn : Instruction} : original[k]? = some insn →
      insn.opcode.isPureLoad = true → Reproduces original k [insn]
  | field {k : Nat} {insn : Instruction} : original[k]? = some (.ldarg 0) →
      original[k + 1]? = some insn → insn.opcode = .ldfld →
      Reproduces original (k + 1) [.ldarg 0, insn]

theorem captureLoads_found (distinct : s.positions.Nodup) {span : Span} {c : Capture}
    {q : Position} {k : Nat} {insn : Instruction} (found : findCapture s span c = some q)
    (index : s.index? q = some k) (here : s.code[k]? = some insn) :
    (∃ code, p.captureLoads s span c = .ok code ∧ Reproduces s.code k code) ∨
      p.captureLoads s span c = .error (.unsupportedCapture p.name c.name insn.text) ∧
        ∀ code, ¬Reproduces s.code k code := by
  have unfolded : p.captureLoads s span c =
      if insn.opcode.isPureLoad = true then .ok [insn]
      else if insn.opcode = .ldfld ∧ (s.prev? q).bind s.insn? = some (.ldarg 0) then
        .ok [.ldarg 0, insn]
      else .error (.unsupportedCapture p.name c.name insn.text) := by
    simp only [captureLoads, found, (Stream.insn_at index).trans here]
  rw [unfolded]
  by_cases pure : insn.opcode.isPureLoad = true
  · exact .inl ⟨[insn], if_pos pure, .load here pure⟩
  · by_cases field : insn.opcode = .ldfld ∧ (s.prev? q).bind s.insn? = some (.ldarg 0)
    · refine .inl ⟨[.ldarg 0, insn], (if_neg pure).trans (if_pos field), ?_⟩
      cases k with
      | zero => simp [Stream.insn_before_first index] at field
      | succ k =>
        rw [Stream.insn_before distinct index] at field
        exact .field field.2 here field.1
    · refine .inr ⟨(if_neg pure).trans (if_neg field), ?_⟩
      rintro code (⟨load, pure'⟩ | ⟨receiver, load, opcode⟩)
      · obtain rfl := Option.some.inj (here.symm.trans load)
        exact pure pure'
      · obtain rfl := Option.some.inj (here.symm.trans load)
        exact field ⟨opcode, (Stream.insn_before distinct index).trans receiver⟩

theorem Reproduces.unique {original code other : List Instruction} {k : Nat}
    (one : Reproduces original k code) (two : Reproduces original k other) : code = other := by
  cases one with
  | load here pure =>
    cases two with
    | load there _ => rw [Option.some.inj (here.symm.trans there)]
    | field _ there opcode =>
      obtain rfl := Option.some.inj (here.symm.trans there)
      rw [opcode] at pure
      cases pure
  | field _ here opcode =>
    cases two with
    | load there pure =>
      obtain rfl := Option.some.inj (here.symm.trans there)
      rw [opcode] at pure
      cases pure
    | field _ there _ => rw [Option.some.inj (here.symm.trans there)]

/-- A capture means the match with its number, and is resolved to the code that pushes that value
again, which leaves one value. -/
structure Resolves (p : Point) (s : Stream) (span : Span) (c : Capture) (hits : List Cell) : Prop where
  found : findCapture s span c = (hits[c.nth]?).map (·.pos)
  missing : p.captureLoads s span c = .error (.captureNotFound p.name c.name) ↔
    hits.length < c.nth + 1
  loads : ∀ code, p.captureLoads s span c = .ok code ↔ ∃ cell k, hits[c.nth]? = some cell ∧
    s.index? cell.pos = some k ∧ Reproduces s.code k code
  unsupported : ∀ text, p.captureLoads s span c =
      .error (.unsupportedCapture p.name c.name text) ↔
    ∃ cell k, hits[c.nth]? = some cell ∧ s.index? cell.pos = some k ∧ text = cell.insn.text ∧
      ∀ code, ¬Reproduces s.code k code
  addsOne : ∀ code, p.captureLoads s span c = .ok code → AddsOne code

theorem findCapture_eq (distinct : s.positions.Nodup) {span : Span} {i j : Nat}
    (first : s.index? span.first = some i) (last : s.index? span.last = some j) (c : Capture) :
    findCapture s span c = ((c.hits s i j)[c.nth]?).map (·.pos) := by
  have start : ∀ {q k}, s.index? q = some k → Cursor.on s q = .ok ⟨s, some q⟩ := fun index => by
    rw [Cursor.on, if_pos (Stream.contains_iff.mpr (Stream.mem_of_index distinct index))]
  unfold findCapture Capture.hits
  cases c.direction with
  | backward =>
    simp only [start first]
    exact seek_eq_hit distinct .backward c.predicate c.nth first
  | forward =>
    simp only [start last]
    exact seek_eq_hit distinct .forward c.predicate c.nth last

theorem hit_index (distinct : s.positions.Nodup) {c : Capture} {i j : Nat} {cell : Cell}
    (hit : cell ∈ c.hits s i j) : ∃ k, s.index? cell.pos = some k ∧ s.code[k]? = some cell.insn := by
  have member : cell ∈ s.cells := by
    unfold Capture.hits at hit
    split at hit
    · exact List.mem_of_mem_take (List.mem_reverse.mp (List.mem_of_mem_filter hit))
    · exact List.mem_of_mem_drop (List.mem_of_mem_filter hit)
  obtain ⟨k, here⟩ := List.mem_iff_getElem?.mp member
  exact ⟨k, (Stream.index_cell distinct).mpr ⟨cell, here, rfl⟩, by simp [Stream.code, here]⟩

theorem resolves (distinct : s.positions.Nodup) {span : Span} {i j : Nat}
    (first : s.index? span.first = some i) (last : s.index? span.last = some j) (c : Capture) :
    p.Resolves s span c (c.hits s i j) := by
  have found := findCapture_eq distinct first last c
  cases hit : (c.hits s i j)[c.nth]? with
  | none =>
    have few : (c.hits s i j).length < c.nth + 1 := Nat.lt_succ_of_le (by simpa using hit)
    have missing : p.captureLoads s span c = .error (.captureNotFound p.name c.name) := by
      rw [hit] at found
      simp only [captureLoads, found, Option.map_none]
    refine ⟨found, ?_, ?_, ?_, ?_⟩
    · simp [missing, few]
    · simp [missing, hit]
    · simp [missing, hit]
    · simp [missing]
  | some cell =>
    have many : ¬(c.hits s i j).length < c.nth + 1 :=
      Nat.not_lt.mpr (List.getElem?_eq_some_iff.mp hit).1
    obtain ⟨k, index, here⟩ := hit_index distinct (List.mem_of_getElem? hit)
    have the : ∀ {P : Cell → Nat → Prop}, (∃ found l, some cell = some found ∧
        s.index? found.pos = some l ∧ P found l) ↔ P cell k := by
      simp [index]
    rw [hit] at found
    have result := captureLoads_found (p := p) distinct found index here
    refine ⟨by rw [hit, found], ?_, fun code => ?_, fun text => ?_, fun code loads =>
      (captureLoads_pushes loads).addsOne⟩
    · rcases result with ⟨code, loads, -⟩ | ⟨refused, -⟩
      · simp [loads, many]
      · simp [refused, many]
    · rw [hit, the]
      rcases result with ⟨other, loads, again⟩ | ⟨refused, never⟩
      · rw [loads, Except.ok.injEq]
        exact ⟨fun same => same ▸ again, again.unique⟩
      · simp [refused, never]
    · rw [hit, the]
      rcases result with ⟨other, loads, again⟩ | ⟨refused, never⟩
      · simp only [loads, reduceCtorEq, false_iff, not_and]
        exact fun _ never => never other again
      · simp [refused, never, eq_comm]

/-! ### Applying a point -/

theorem allCaptureLoads_error_iff {span : Span} {captures : List Capture} {e : SpliceError} :
    p.allCaptureLoads s span captures = .error e ↔ ∃ front c back, captures = front ++ c :: back ∧
      (∀ x ∈ front, ∃ code, p.captureLoads s span x = .ok code) ∧
      p.captureLoads s span c = .error e := by
  induction captures with
  | nil => simp [allCaptureLoads]
  | cons first rest ih =>
    cases resolved : p.captureLoads s span first with
    | error f =>
      simp only [allCaptureLoads, resolved, Except.error.injEq]
      constructor
      · rintro rfl
        exact ⟨[], first, rest, rfl, by simp, resolved⟩
      · rintro ⟨_ | ⟨x, front⟩, c, back, split, before, refused⟩
        · obtain ⟨rfl, -⟩ := List.cons.inj split
          exact Except.error.inj (resolved.symm.trans refused)
        · obtain ⟨rfl, -⟩ := List.cons.inj split
          obtain ⟨code, loads⟩ := before first List.mem_cons_self
          rw [resolved] at loads
          cases loads
    | ok code =>
      have tail : p.allCaptureLoads s span (first :: rest) = .error e ↔
          p.allCaptureLoads s span rest = .error e := by
        simp only [allCaptureLoads, resolved]
        cases p.allCaptureLoads s span rest <;> simp [Except.map]
      rw [tail, ih]
      constructor
      · rintro ⟨front, c, back, rfl, before, refused⟩
        refine ⟨first :: front, c, back, rfl, fun x member => ?_, refused⟩
        rcases List.mem_cons.mp member with rfl | later
        · exact ⟨code, resolved⟩
        · exact before x later
      · rintro ⟨_ | ⟨x, front⟩, c, back, split, before, refused⟩
        · obtain ⟨rfl, -⟩ := List.cons.inj split
          rw [resolved] at refused
          cases refused
        · obtain ⟨rfl, rfl⟩ := List.cons.inj split
          exact ⟨front, c, back, rfl, fun x later => before x (List.mem_cons_of_mem _ later),
            refused⟩

/-- A point is refused for what it does not find, before the stream is changed, or by the stream. -/
theorem apply_error {e : SpliceError} (refused : p.apply s = (.error e, t)) :
    (p.site s = .error e ∧ t = s) ∨ ∃ source, e = .stream p.name source := by
  unfold Point.apply at refused
  split at refused
  · next missing =>
    obtain ⟨same, rfl⟩ := Prod.mk.inj refused
    exact .inl ⟨by rw [missing, Except.error.inj same], rfl⟩
  · right
    dsimp only at refused
    split at refused
    · exact ⟨_, (Except.error.inj (Prod.mk.inj refused).1).symm⟩
    · split at refused
      · exact ⟨_, (Except.error.inj (Prod.mk.inj refused).1).symm⟩
      · obtain ⟨untold, -⟩ := Prod.mk.inj refused
        unfold Point.report at untold
        split at untold
        · exact ⟨_, (Except.error.inj untold).symm⟩
        · cases untold

/-- Where to go on and where to skip to are found for an anchor. -/
def Onward (p : Point) (s : Stream) (anchor : Span) : Prop :=
  ∃ resume skip, p.resumeAt s anchor = .ok resume ∧
    (if p.mode = .consume && p.template.usesSkip then p.skipAt s anchor resume
      else .ok resume) = .ok skip

theorem resume_error_other {span : Span} {e : SpliceError}
    (refused : p.resumeAt s span = .error e) : ¬e.OfCapture := by
  unfold Point.resumeAt at refused
  split at refused
  · cases refused
  · split at refused
    · cases refused
    · cases refused
      rintro ⟨⟩

theorem skip_error_other {span : Span} {resume : Position} {e : SpliceError}
    (refused : p.skipAt s span resume = .error e) : ¬e.OfCapture := by
  unfold Point.skipAt at refused
  split at refused
  · split at refused
    · cases refused
      rintro ⟨⟩
    · split at refused
      · cases refused
      · cases refused
        rintro ⟨⟩
  · split at refused
    · cases refused
    · cases refused
      rintro ⟨⟩

theorem site_capture_error_iff (located : p.locate s = .ok anchor) {e : SpliceError}
    (capture : e.OfCapture) : p.site s = .error e ↔
      p.Onward s anchor.span ∧ p.allCaptureLoads s anchor.span p.captures = .error e := by
  simp only [Point.site, located]
  cases resumes : p.resumeAt s anchor.span with
  | error f =>
    refine iff_of_false (fun same => ?_) ?_
    · exact resume_error_other resumes (Except.error.inj same ▸ capture)
    · rintro ⟨⟨resume, _, goes, _⟩, _⟩
      rw [resumes] at goes
      cases goes
  | ok resume =>
    dsimp only
    split
    · next f skips =>
      have other : ¬f.OfCapture := by
        split at skips
        · exact skip_error_other skips
        · cases skips
      refine iff_of_false (fun same => other (Except.error.inj same ▸ capture)) ?_
      rintro ⟨⟨_, skip, goes, lands⟩, _⟩
      obtain rfl := Except.ok.inj (resumes.symm.trans goes)
      rw [skips] at lands
      cases lands
    · next skip skips =>
      have onward : p.Onward s anchor.span := ⟨resume, skip, resumes, skips⟩
      cases p.allCaptureLoads s anchor.span p.captures <;> simp [onward]

/-- Captures are resolved. Around a located anchor every capture means the match with its number,
counted from the anchor, and is resolved to the load that pushes that value again, or to none. The
loads leave one value more, as the stand-ins of the trial do. A point goes in with the loads of all its
captures, and is refused for the first that has none, if it finds where to go on and to skip to. -/
theorem captures_resolve {d : PointDraft} (built : d.build = .ok p) (reached : s.Reachable)
    (located : p.locate s = .ok anchor) :
    (∃ i j, s.index? anchor.span.first = some i ∧ s.index? anchor.span.last = some j ∧ i ≤ j ∧
      ∀ c : Capture, p.Resolves s anchor.span c (c.hits s i j)) ∧
    (d.trialLoads.captures.length = p.captures.length ∧
      ∀ code ∈ d.trialLoads.captures, AddsOne code) ∧
    (∀ r t, p.apply s = (.ok r, t) → ∃ site, p.site s = .ok site ∧ site.anchor = anchor ∧
      p.captures.Forall₂ (fun c code => p.captureLoads s anchor.span c = .ok code)
        site.captures) ∧
    ∀ e t, e.OfCapture → (p.apply s = (.error e, t) ↔
      t = s ∧ p.Onward s anchor.span ∧ ∃ front c back, p.captures = front ++ c :: back ∧
        (∀ x ∈ front, ∃ code, p.captureLoads s anchor.span x = .ok code) ∧
        p.captureLoads s anchor.span c = .error e) := by
  have ok := reached.wellFormed
  obtain ⟨i, j, first, last, le⟩ := locate_ends ok located
  obtain ⟨-, -, rfl⟩ := PointDraft.build_ok built
  refine ⟨⟨i, j, first, last, le, resolves ok.distinct first last⟩,
    ⟨List.length_map _, fun code member => ?_⟩, fun r t applied => ?_, fun e t capture => ?_⟩
  · obtain ⟨c, -, rfl⟩ := List.mem_map.mp member
    exact (Pushes.load rfl).addsOne
  · obtain ⟨site, _, finds, -⟩ := apply_spliced ok applied
    obtain ⟨again, -, -, captured, -⟩ := site_iff.mp finds
    obtain rfl : anchor = site.anchor := Except.ok.inj (located.symm.trans again)
    exact ⟨site, finds, rfl, allCaptureLoads_ok captured⟩
  · rw [← allCaptureLoads_error_iff, ← site_capture_error_iff located capture]
    constructor
    · intro refused
      rcases apply_error refused with ⟨missing, same⟩ | ⟨source, rfl⟩
      · exact ⟨same, missing⟩
      · cases capture
    · rintro ⟨rfl, missing⟩
      simp only [Point.apply, missing]

end Point

def scoreField : FieldRef := ⟨⟨"Player"⟩, "score", false⟩

/-- A method that reads a field of its receiver in front of a `nop` and two locals behind it. -/
def readingBody : Body :=
  ⟨[.ldarg 0, .ldfld scoreField, .pop, .nop, .ldloc 1, .pop, .ldloc 2, .pop, .ret], .empty, false⟩

/-- A point at the `nop` that captures the field in front of it, and of the locals behind it the one
with a number. -/
def readingPoint (nth : Nat) : PointDraft :=
  { watchPoint with captures :=
      [⟨"score", .backward, .opcode .ldfld, 0⟩, ⟨"local", .forward, .opcode .ldloc, nth⟩] }

/-- The second local is captured, and there is no third. -/
theorem second_local_captured : ∃ s p q r t site, Stream.ofBody readingBody = .ok s ∧
    (readingPoint 1).build = .ok p ∧ (readingPoint 2).build = .ok q ∧ p.apply s = (.ok r, t) ∧
    p.site s = .ok site ∧ p.captures.Forall₂ (fun c code =>
      p.captureLoads s site.anchor.span c = .ok code ∧ AddsOne code) site.captures ∧
    site.captures = [[.ldarg 0, .ldfld scoreField], [.ldloc 2]] ∧
    q.apply s = (.error (.captureNotFound "watch" "local"), s) := by
  obtain ⟨s, loaded⟩ : ∃ s, Stream.ofBody readingBody = .ok s := ⟨_, rfl⟩
  obtain ⟨p, builtP⟩ : ∃ p, (readingPoint 1).build = .ok p := ⟨_, rfl⟩
  obtain ⟨q, builtQ⟩ : ∃ q, (readingPoint 2).build = .ok q := ⟨_, rfl⟩
  obtain ⟨anchor, r, t, site, located, applied, finds, loads⟩ : ∃ anchor r t site,
      p.locate s = .ok anchor ∧ p.apply s = (.ok r, t) ∧ p.site s = .ok site ∧
        site.captures = [[.ldarg 0, .ldfld scoreField], [.ldloc 2]] := by
    cases loaded
    cases builtP
    exact ⟨_, _, _, _, rfl, rfl, rfl, rfl⟩
  obtain ⟨other, locatedQ, onward, front, c, back, split, before, refused⟩ : ∃ other,
      q.locate s = .ok other ∧ q.Onward s other.span ∧
        ∃ front c back, q.captures = front ++ c :: back ∧
          (∀ x ∈ front, ∃ code, q.captureLoads s other.span x = .ok code) ∧
          q.captureLoads s other.span c = .error (.captureNotFound "watch" "local") := by
    cases loaded
    cases builtQ
    refine ⟨_, rfl, ⟨_, _, rfl, rfl⟩, [_], _, [], rfl, fun x member => ?_, rfl⟩
    cases List.mem_singleton.mp member
    exact ⟨_, rfl⟩
  obtain ⟨⟨i, j, -, -, -, resolves⟩, -, goesIn, -⟩ :=
    Point.captures_resolve builtP (.loaded loaded) located
  obtain ⟨-, -, -, refuses⟩ := Point.captures_resolve builtQ (.loaded loaded) locatedQ
  obtain ⟨again, same, here, related⟩ := goesIn r t applied
  obtain rfl : site = again := Except.ok.inj (finds.symm.trans same)
  obtain rfl := here
  refine ⟨s, p, q, r, t, site, loaded, builtP, builtQ, applied, finds,
    related.imp fun c code loads => ⟨loads, (resolves c).addsOne code loads⟩, loads, ?_⟩
  exact (refuses _ s .notFound).mpr ⟨rfl, onward, front, c, back, split, before, refused⟩

end Interpose
