import Interpose.Proofs.Stream.Cursors

/-!
Instructions emitted one by one. As long as their labels are bound, they come to lie where a block of
them would: in one row, in their order, in front of the cursor or behind it. The stream is the same in
the end, and so is the cursor.
-/

set_option autoImplicit false
set_option relaxedAutoImplicit false

namespace Interpose

namespace Stream

variable {s : Stream} {front rest : List Cell} {code : List Instruction}

/-! ### Positions of streams that come up -/

theorem Obtained.represented {σ : Type} {m : SlotMap σ} (lawful : m.Lawful)
    (obtained : s.Obtained) : ∃ k : LinkedStream σ, k.Represents m s := by
  induction obtained with
  | @made o s listed =>
    have held := o.represented lawful
    rw [listed] at held
    obtain ⟨k, -, rep⟩ := held
    exact ⟨k, rep⟩
  | edited e _ ih =>
    refine e.preserves (P := fun s => ∃ k : LinkedStream σ, k.Represents m s) ?_ ?_ ?_ ih
    · rintro s n ⟨k, rep⟩
      exact ⟨_, rep.relabel s.labels n⟩
    · rintro s c ⟨k, rep⟩
      obtain ⟨t, -, after⟩ := rep.perform lawful c
      exact ⟨t, after⟩
    · rintro s returns ⟨k, rep⟩
      exact ⟨{ k with returns }, ⟨rep.front.chained, rep.front.head⟩, rep.tail, rep.only,
        rep.distinct, rep.size, rep.issued, rep.labels, rep.nextLabel, rfl⟩

theorem Obtained.distinct (obtained : s.Obtained) : s.positions.Nodup := by
  obtain ⟨k, rep⟩ := obtained.represented SlotMap.ledger_lawful
  exact rep.distinct

theorem Obtained.serial_lt (obtained : s.Obtained) {p : Position} (here : p ∈ s.positions) :
    p.serial < s.nextSerial := by
  obtain ⟨k, rep⟩ := obtained.represented SlotMap.ledger_lawful
  exact rep.serial_lt SlotMap.ledger_lawful here

/-! ### Rows of instructions -/

def Binds (s : Stream) (code : List Instruction) : Prop :=
  ∀ insn ∈ code, ∀ l ∈ insn.operand.mentioned, ∃ p, s.labels.find? l = some p

/-- The stream with instructions at new positions between two parts of it. -/
def extended (s : Stream) (front rest : List Cell) (code : List Instruction) : Stream :=
  { s with
    cells := front ++ numbered s.nextSerial code ++ rest
    nextSerial := s.nextSerial + code.length }

theorem extended_nil (whole : s.cells = front ++ rest) : s.extended front rest [] = s := by
  obtain ⟨cells, labels, nextSerial, nextLabel, returns⟩ := s
  obtain rfl : cells = front ++ rest := whole
  simp [extended, numbered]

theorem extended_append (s : Stream) (front rest : List Cell) (first code : List Instruction) :
    (s.extended front rest first).extended (front ++ numbered s.nextSerial first) rest code =
      s.extended front rest (first ++ code) := by
  simp only [extended, numbered_append, List.append_assoc, List.length_append, Nat.add_assoc]

theorem admits_instructions (filled : code ≠ []) (bound : s.Binds code) :
    s.Admits (.ofInstructions code) where
  nonempty := filled
  free := nofun
  once := .nil
  holds := nofun
  closed insn member l mentioned := .inl (bound insn member l mentioned)

theorem insert_instructions (filled : code ≠ []) (bound : s.Binds code) :
    s.insertBetween front rest (.ofInstructions code) =
      (.ok ⟨⟨s.nextSerial⟩, ⟨s.nextSerial + code.length - 1⟩⟩, s.extended front rest code) :=
  insertBetween_iff.mpr ⟨admits_instructions filled bound, rfl⟩

/-- Instructions came in between two parts of a stream: in their order, at new positions, and with
every label and every other instruction where it was. -/
structure Extended (s t : Stream) (front rest : List Cell) (code : List Instruction)
    (ps : List Position) : Prop where
  whole : s.cells = front ++ rest
  cells : ∃ new, t.cells = front ++ new ++ rest ∧ new.map (·.insn) = code ∧ new.map (·.pos) = ps
  fresh : ∀ p ∈ ps, p ∉ s.positions
  labels : t.labels = s.labels
  returns : t.returns = s.returns

theorem Obtained.extended (obtained : s.Obtained) (whole : s.cells = front ++ rest)
    (code : List Instruction) : s.Extended (s.extended front rest code) front rest code
      ((numbered s.nextSerial code).map (·.pos)) where
  whole := whole
  cells := ⟨_, rfl, code_numbered s.nextSerial code, rfl⟩
  fresh p new old := by
    have above := (mem_numbered.mp new).1
    have below := obtained.serial_lt old
    omega
  labels := rfl
  returns := rfl

end Stream

namespace Cursor

/-- The same is done with some instructions one after the other, up to the first that is refused. -/
def each (act : Cursor → Instruction → Outcome Position) (c : Cursor) :
    List Instruction → Outcome (List Position)
  | [] => (.ok [], c)
  | insn :: rest =>
    match act c insn with
    | (.error e, d) => (.error e, d)
    | (.ok p, d) =>
      let (ps, d) := each act d rest
      (ps.map (p :: ·), d)

variable {c d : Cursor} {front rest : List Cell} {code : List Instruction}

/-! ### Places -/

/-- The cursor stands on the first instruction of the second of two parts, or past the end if there
is none. -/
structure OnRest (c : Cursor) (front rest : List Cell) : Prop where
  reached : c.Reached
  whole : c.stream.cells = front ++ rest
  current : c.current = rest.head?.map (·.pos)

/-- The cursor stands on the last instruction of the first of two parts. -/
structure OnFront (c : Cursor) (front rest : List Cell) : Prop where
  reached : c.Reached
  whole : c.stream.cells = front ++ rest
  filled : front ≠ []
  current : c.current = front.getLast?.map (·.pos)

theorem OnRest.cut (before : OnRest c front rest) (b : Block) :
    c.emitBlock b = ((c.stream.insertBetween front rest b).1,
      ⟨(c.stream.insertBetween front rest b).2, c.current⟩) := by
  obtain ⟨s, current⟩ := c
  obtain ⟨reached, whole, rfl⟩ := before
  cases rest with
  | nil =>
    have all : front = s.cells := by simpa using whole.symm
    rw [all]
    rfl
  | cons cell rest =>
    have split := Stream.split_middle reached.obtained.distinct whole
    simp only [emitBlock, List.head?_cons, Option.map_some, Stream.insertBefore, split]

theorem OnFront.cut (behind : OnFront c front rest) (b : Block) :
    c.emitBlockAfter b = match c.stream.insertBetween front rest b with
      | (.ok span, t) => (.ok span, ⟨t, some span.last⟩)
      | (.error e, t) => (.error e, ⟨t, c.current⟩) := by
  obtain ⟨s, current⟩ := c
  obtain ⟨reached, whole, filled, rfl⟩ := behind
  rcases List.eq_nil_or_concat front with rfl | ⟨front, cell, rfl⟩
  · exact absurd rfl filled
  rw [List.concat_eq_append] at *
  have split := Stream.split_middle (s := s) reached.obtained.distinct (by simpa using whole)
  simp only [emitBlockAfter, List.getLast?_concat, Option.map_some, Stream.insertAfter, split]
  rfl

/-! ### Rows -/

/-- What a step or a row of steps leaves: the new instructions, and a cursor that stands with respect
to them as it did to those in front of them. -/
def Row (stands : Cursor → List Cell → List Cell → Prop) (c d : Cursor) (front rest : List Cell)
    (code : List Instruction) : Prop :=
  d.stream = c.stream.extended front rest code ∧
    stands d (front ++ Stream.numbered c.stream.nextSerial code) rest

theorem OnRest.row (before : OnRest c front rest) (filled : code ≠ [])
    (bound : c.stream.Binds code) :
    c.emitBlock (.ofInstructions code) =
        (.ok ⟨⟨c.stream.nextSerial⟩, ⟨c.stream.nextSerial + code.length - 1⟩⟩,
          ⟨c.stream.extended front rest code, c.current⟩) ∧
      Row OnRest c ⟨c.stream.extended front rest code, c.current⟩ front rest code := by
  have went := before.cut (.ofInstructions code)
  rw [Stream.insert_instructions filled bound] at went
  have reached := before.reached.acted (.emitBlock (.ofInstructions code))
  change (c.emitBlock (.ofInstructions code)).2.Reached at reached
  rw [went] at reached
  exact ⟨went, rfl, reached, rfl, before.current⟩

theorem OnFront.row (behind : OnFront c front rest) (filled : code ≠ [])
    (bound : c.stream.Binds code) :
    c.emitBlockAfter (.ofInstructions code) =
        (.ok ⟨⟨c.stream.nextSerial⟩, ⟨c.stream.nextSerial + code.length - 1⟩⟩,
          ⟨c.stream.extended front rest code,
            some ⟨c.stream.nextSerial + code.length - 1⟩⟩) ∧
      Row OnFront c ⟨c.stream.extended front rest code,
        some ⟨c.stream.nextSerial + code.length - 1⟩⟩ front rest code := by
  have went := behind.cut (.ofInstructions code)
  rw [Stream.insert_instructions filled bound] at went
  have reached := behind.reached.acted (.emitBlockAfter (.ofInstructions code))
  change (c.emitBlockAfter (.ofInstructions code)).2.Reached at reached
  rw [went] at reached
  refine ⟨went, rfl, reached, rfl, ?_, ?_⟩
  · exact List.append_ne_nil_of_left_ne_nil behind.filled _
  · have last := (LinkedStream.numbered_ends c.stream.nextSerial filled).2
    have some : Stream.numbered c.stream.nextSerial code ≠ [] := by
      intro nothing
      have size := Stream.length_numbered c.stream.nextSerial code
      rw [nothing] at size
      exact filled (List.length_eq_zero_iff.mp size.symm)
    rw [List.getLast?_append_of_ne_nil _ some, ← List.getLast?_map, last]

theorem OnRest.step {insn : Instruction} (before : OnRest c front rest)
    (bound : c.stream.Binds [insn]) :
    ∃ d, c.emit insn = (.ok ⟨c.stream.nextSerial⟩, d) ∧ Row OnRest c d front rest [insn] := by
  obtain ⟨went, row⟩ := before.row (List.cons_ne_nil insn []) bound
  exact ⟨_, by rw [emit, went]; rfl, row⟩

theorem OnFront.step {insn : Instruction} (behind : OnFront c front rest)
    (bound : c.stream.Binds [insn]) :
    ∃ d, c.emitAfter insn = (.ok ⟨c.stream.nextSerial⟩, d) ∧ Row OnFront c d front rest [insn] := by
  obtain ⟨went, row⟩ := behind.row (List.cons_ne_nil insn []) bound
  exact ⟨_, by rw [emitAfter, went]; rfl, row⟩

/-- Where one step adds one instruction and leaves the cursor ready for the next, the steps together
add the whole row. -/
theorem each_row {act : Cursor → Instruction → Outcome Position}
    {stands : Cursor → List Cell → List Cell → Prop}
    (whole : ∀ {c : Cursor} {front rest : List Cell}, stands c front rest →
      c.stream.cells = front ++ rest)
    (step : ∀ {c : Cursor} {front rest : List Cell} {insn : Instruction}, stands c front rest →
      c.stream.Binds [insn] →
      ∃ d, act c insn = (.ok ⟨c.stream.nextSerial⟩, d) ∧ Row stands c d front rest [insn])
    (here : stands c front rest) (bound : c.stream.Binds code) :
    ∃ d, c.each act code = (.ok ((Stream.numbered c.stream.nextSerial code).map (·.pos)), d) ∧
      Row stands c d front rest code := by
  -- with each step the instruction just put in joins the front
  induction code generalizing c front with
  | nil =>
    refine ⟨c, rfl, (Stream.extended_nil (whole here)).symm, ?_⟩
    rwa [Stream.numbered, List.append_nil]
  | cons insn code ih =>
    obtain ⟨first, bound⟩ := List.forall_mem_cons.mp bound
    obtain ⟨d, went, grown, there⟩ := step here (by simpa [Stream.Binds] using first)
    obtain ⟨e, others, more, final⟩ := ih there (by rw [grown]; exact bound)
    have serial : d.stream.nextSerial = c.stream.nextSerial + 1 := by
      rw [grown]
      rfl
    rw [serial] at others final
    refine ⟨e, ?_, ?_, ?_⟩
    · rw [each, went]
      simp only [others]
      rfl
    · rw [more, grown]
      exact Stream.extended_append c.stream front rest [insn] code
    · rw [List.append_assoc] at final
      exact final

/-! ### Both ways -/

theorem Reached.onRest (reached : c.Reached) : c.OnRest c.behind.reverse c.ahead := by
  obtain ⟨s, current⟩ := c
  cases current with
  | none => exact ⟨reached, by simp [behind, ahead], rfl⟩
  | some p =>
    obtain ⟨front, onward, split⟩ := Stream.split_of_mem (reached.lives p rfl)
    obtain ⟨whole, -, here⟩ := Stream.split_iff.mp split
    have front' : (behind ⟨s, some p⟩).reverse = front := by
      simp [behind, Stream.before, split]
    have onward' : ahead ⟨s, some p⟩ = onward := by
      simp [ahead, Stream.onward, split]
    rw [front', onward']
    exact ⟨reached, whole, here.symm⟩

theorem OnRest.onFront (before : OnRest c front rest) (on : c.isAtEnd = false) :
    c.OnFront (front ++ rest.take 1) (rest.drop 1) := by
  obtain ⟨reached, whole, current⟩ := before
  cases rest with
  | nil =>
    rw [isAtEnd, current] at on
    cases on
  | cons cell rest =>
    refine ⟨reached, ?_, ?_, ?_⟩
    · simpa using whole
    · simp
    · simpa using current

theorem Row.unique {stands : Cursor → List Cell → List Cell → Prop} {e : Cursor}
    (place : ∀ {c d : Cursor} {front rest : List Cell}, stands c front rest →
      stands d front rest → c.current = d.current)
    (one : Row stands c d front rest code) (other : Row stands c e front rest code) : d = e := by
  obtain ⟨stream, here⟩ := one
  obtain ⟨stream', there⟩ := other
  have current := place here there
  obtain ⟨s, p⟩ := d
  obtain ⟨t, q⟩ := e
  obtain rfl : s = t := stream.trans stream'.symm
  obtain rfl : p = q := current
  rfl

/-- Instructions whose labels are bound can be emitted one by one or as a block: in front of the
cursor, which does not move, or behind the instruction it stands on, where it gets to the last one
emitted. The stream and the cursor are the same in the end. The instructions stand in one row, in
their order, right in front of the cursor or right behind where it stood, and every label and every
other instruction is where it was. -/
theorem emitted_one_by_one (reached : c.Reached) (filled : code ≠ [])
    (bound : c.stream.Binds code) :
    (∃ span ps t, c.emitBlock (.ofInstructions code) = (.ok span, ⟨t, c.current⟩) ∧
      c.each emit code = (.ok ps, ⟨t, c.current⟩) ∧
      ps.head? = some span.first ∧ ps.getLast? = some span.last ∧
      c.stream.Extended t c.behind.reverse c.ahead code ps) ∧
    (c.isAtEnd = false →
      ∃ span ps t, c.emitBlockAfter (.ofInstructions code) = (.ok span, ⟨t, some span.last⟩) ∧
        c.each emitAfter code = (.ok ps, ⟨t, some span.last⟩) ∧
        ps.head? = some span.first ∧ ps.getLast? = some span.last ∧
        c.stream.Extended t (c.behind.reverse ++ c.ahead.take 1) (c.ahead.drop 1) code ps) := by
  have before := reached.onRest
  obtain ⟨first, last⟩ := LinkedStream.numbered_ends c.stream.nextSerial filled
  constructor
  · obtain ⟨block, row⟩ := before.row filled bound
    obtain ⟨d, single, row'⟩ := each_row OnRest.whole OnRest.step before bound
    obtain rfl := row.unique (fun here there => here.current.trans there.current.symm) row'
    exact ⟨_, _, _, block, single, first, last, reached.obtained.extended before.whole code⟩
  · intro on
    have behind := before.onFront on
    obtain ⟨block, row⟩ := behind.row filled bound
    obtain ⟨d, single, row'⟩ := each_row OnFront.whole OnFront.step behind bound
    obtain rfl := row.unique (fun here there => here.current.trans there.current.symm) row'
    exact ⟨_, _, _, block, single, first, last, reached.obtained.extended behind.whole code⟩

/-- A jump and what follows it are emitted at the last instruction of a stream, which is the target of
the jump: in front of it, and behind it. -/
theorem jump_and_nop_emitted : ∃ c : Cursor, c.Reached ∧ c.current = some ⟨1⟩ ∧
    c.stream.code = [.ldarg 0, .ret] ∧ c.stream.labels.find? ⟨7⟩ = some ⟨1⟩ ∧
    (∃ ps t, c.each emit [.br ⟨7⟩, .nop] = (.ok ps, ⟨t, some ⟨1⟩⟩) ∧
      (c.emitBlock (.ofInstructions [.br ⟨7⟩, .nop])).2 = ⟨t, some ⟨1⟩⟩ ∧
      t.code = [.ldarg 0, .br ⟨7⟩, .nop, .ret] ∧ t.labels.find? ⟨7⟩ = some ⟨1⟩) ∧
    ∃ ps t, c.each emitAfter [.br ⟨7⟩, .nop] = (.ok ps, ⟨t, ps.getLast?⟩) ∧
      (c.emitBlockAfter (.ofInstructions [.br ⟨7⟩, .nop])).2 = ⟨t, ps.getLast?⟩ ∧
      t.code = [.ldarg 0, .ret, .br ⟨7⟩, .nop] ∧ t.labels.find? ⟨7⟩ = some ⟨1⟩ := by
  have obtained : (Stream.ofInstructions [.ldarg 0, .ret]).Obtained :=
    .made (o := .instructions _) rfl
  have reached : Reached _ := .on (obtained.edited (.markLabel ⟨7⟩ ⟨1⟩)) (p := ⟨1⟩) rfl
  have filled : [Instruction.br ⟨7⟩, .nop] ≠ [] := List.cons_ne_nil _ _
  obtain ⟨⟨span, ps, t, block, single, -, -, row⟩, behind⟩ :=
    emitted_one_by_one reached filled (by
      simp only [Stream.Binds, List.forall_mem_cons, Instruction.br, Instruction.nop,
        Instruction.plain, Operand.mentioned]
      exact ⟨⟨⟨⟨1⟩, rfl⟩, List.forall_mem_nil _⟩, List.forall_mem_nil _, List.forall_mem_nil _⟩)
  obtain ⟨span', ps', t', block', single', -, last, row'⟩ := behind rfl
  refine ⟨_, reached, rfl, rfl, rfl, ⟨ps, t, single, congrArg Prod.snd block, ?_, ?_⟩, ps', t', ?_, ?_,
    ?_, ?_⟩
  · obtain ⟨new, cells, insns, -⟩ := row.cells
    simp only [Stream.code, cells, List.map_append, insns]
    rfl
  · rw [row.labels]
    rfl
  · rw [last]
    exact single'
  · rw [last]
    exact congrArg Prod.snd block'
  · obtain ⟨new, cells, insns, -⟩ := row'.cells
    simp only [Stream.code, cells, List.map_append, insns]
    rfl
  · rw [row'.labels]
    rfl

end Cursor

end Interpose
