import Interpose.Proofs.Stream.Cells
import Interpose.Stream.Linked
import Mathlib.Data.List.Induction

/-!
Chains of nodes. The nodes of a list of cells are chained when each leads back and on to its
neighbours, and a chain can be cut anywhere: the part in front ends where its last node leads, the
part behind begins where its first node leads back. An edit changes only the links at the cut, so
all that an edit needs to know is that the two parts stay chained and their outer ends change.
-/

set_option autoImplicit false
set_option relaxedAutoImplicit false

namespace Interpose.LinkedStream

variable {σ : Type} {m : SlotMap σ} {s t u : LinkedStream σ}

/-! ### The ends of a list of cells -/

/-- Where some cells begin, or what is behind them if there are none. -/
def entry (cells : List Cell) (after : Option Position) : Option Position :=
  (cells.head?.map (·.pos)).or after

/-- Where some cells end, or what is in front of them if there are none. -/
def exit (before : Option Position) (cells : List Cell) : Option Position :=
  (cells.getLast?.map (·.pos)).or before

section Ends

variable {before after : Option Position} {xs ys cells : List Cell} {c : Cell}

@[simp] theorem entry_nil : entry [] after = after := rfl

@[simp] theorem entry_cons : entry (c :: cells) after = some c.pos := rfl

@[simp] theorem entry_append : entry (xs ++ ys) after = entry xs (entry ys after) := by
  cases xs <;> rfl

@[simp] theorem exit_nil : exit before [] = before := rfl

@[simp] theorem exit_concat : exit before (xs ++ [c]) = some c.pos := by
  simp [exit]

@[simp] theorem exit_append : exit before (xs ++ ys) = exit (exit before xs) ys := by
  cases ys using List.reverseRecOn with
  | nil => simp
  | append_singleton ys c =>
    rw [← List.append_assoc, exit_concat, exit_concat]

@[simp] theorem exit_cons : exit before (c :: cells) = exit (some c.pos) cells := by
  rw [← List.singleton_append, exit_append]
  rfl

theorem entry_none : entry cells none = (cells.map (·.pos)).head? := by
  cases cells <;> rfl

theorem exit_of_last {p : Position} (last : (cells.map (·.pos)).getLast? = some p) :
    exit before cells = some p := by
  simp only [List.getLast?_map] at last
  simp [exit, last]

theorem exit_none : exit none cells = (cells.map (·.pos)).getLast? := by
  simp [exit]

end Ends

/-! ### Chained nodes -/

/-- The nodes of some cells lead on from one to the next and back, from `before` to `after`. -/
def Chained (m : SlotMap σ) (nodes : σ) : Option Position → List Cell → Option Position → Prop
  | _, [], _ => True
  | before, c :: cells, after =>
    m.get? nodes c.pos = some ⟨c.insn, before, entry cells after⟩ ∧
      Chained m nodes (some c.pos) cells after

section Chained

variable {nodes changed : σ} {before after : Option Position} {xs ys cells : List Cell} {c : Cell}

theorem chained_append : Chained m nodes before (xs ++ ys) after ↔
    Chained m nodes before xs (entry ys after) ∧ Chained m nodes (exit before xs) ys after := by
  induction xs generalizing before with
  | nil => simp [Chained]
  | cons x xs ih => simp [Chained, ih, and_assoc]

theorem Chained.at (chained : Chained m nodes before (xs ++ c :: ys) after) :
    m.get? nodes c.pos = some ⟨c.insn, exit before xs, entry ys after⟩ :=
  (chained_append.mp chained).2.1

theorem Chained.mem (chained : Chained m nodes before cells after) (member : c ∈ cells) :
    ∃ prev next, m.get? nodes c.pos = some ⟨c.insn, prev, next⟩ := by
  obtain ⟨xs, ys, rfl⟩ := List.append_of_mem member
  exact ⟨_, _, chained.at⟩

theorem Chained.serial_lt (lawful : m.Lawful) (chained : Chained m nodes before cells after)
    {p : Position} (member : p ∈ cells.map (·.pos)) : p.serial < m.issued nodes := by
  obtain ⟨c, here, rfl⟩ := List.mem_map.mp member
  obtain ⟨prev, next, found⟩ := chained.mem here
  exact lawful.live_issued found

theorem Chained.congr (chained : Chained m nodes before cells after)
    (same : ∀ p ∈ cells.map (·.pos), m.get? changed p = m.get? nodes p) :
    Chained m changed before cells after := by
  induction cells generalizing before with
  | nil => trivial
  | cons c cells ih =>
    refine ⟨(same _ (by simp)).trans chained.1, ih chained.2 fun p member => same p ?_⟩
    exact List.mem_cons_of_mem _ member

theorem Chained.overwrite (lawful : m.Lawful)
    (chained : Chained m nodes before (xs ++ c :: ys) after)
    (distinct : ((xs ++ c :: ys).map (·.pos)).Nodup) (insn : Instruction) :
    Chained m (m.set nodes c.pos ⟨insn, exit before xs, entry ys after⟩) before
      (xs ++ ⟨c.pos, insn⟩ :: ys) after := by
  obtain ⟨front, found, back⟩ := chained_append.mp chained
  rw [List.map_append, List.map_cons, List.nodup_middle, List.nodup_cons, List.mem_append,
    not_or] at distinct
  obtain ⟨⟨outsideFront, outsideBack⟩, -⟩ := distinct
  have elsewhere : ∀ p, p ≠ c.pos →
      m.get? (m.set nodes c.pos ⟨insn, exit before xs, entry ys after⟩) p = m.get? nodes p :=
    fun p other => (lawful.get_set found _ p).trans (if_neg other)
  refine chained_append.mpr ⟨front.congr fun p member => elsewhere p ?_,
    (lawful.get_set found _ _).trans (if_pos rfl), back.congr fun p member => elsewhere p ?_⟩
  · rintro rfl
    exact outsideFront member
  · rintro rfl
    exact outsideBack member

end Chained

/-- The stream begins with some cells, and goes on behind them at `after`. -/
structure Front (m : SlotMap σ) (s : LinkedStream σ) (cells : List Cell) (after : Option Position) :
    Prop where
  chained : Chained m s.nodes none cells after
  head : s.head = entry cells after

/-- The stream ends with some cells, and comes to them from `before`. -/
structure Back (m : SlotMap σ) (s : LinkedStream σ) (before : Option Position) (cells : List Cell) :
    Prop where
  chained : Chained m s.nodes before cells none
  tail : s.tail = exit before cells

/-- What relinking leaves alone: the nodes outside of some positions, and all but nodes and ends.
There may be `new` nodes afterwards. -/
structure Rewired (m : SlotMap σ) (s t : LinkedStream σ) (touched : List Position) (new : Nat) :
    Prop where
  elsewhere : ∀ p, p ∉ touched → m.get? t.nodes p = m.get? s.nodes p
  size : m.size t.nodes = m.size s.nodes + new
  issued : m.issued t.nodes = m.issued s.nodes + new
  labels : t.labels = s.labels
  nextLabel : t.nextLabel = s.nextLabel
  returns : t.returns = s.returns

theorem Rewired.trans {here there : List Position} {new more : Nat}
    (first : Rewired m s t here new) (second : Rewired m t u there more) :
    Rewired m s u (here ++ there) (new + more) where
  elsewhere p outside := by
    simp only [List.mem_append, not_or] at outside
    exact (second.elsewhere p outside.2).trans (first.elsewhere p outside.1)
  size := by rw [second.size, first.size, Nat.add_assoc]
  issued := by rw [second.issued, first.issued, Nat.add_assoc]
  labels := second.labels.trans first.labels
  nextLabel := second.nextLabel.trans first.nextLabel
  returns := second.returns.trans first.returns

theorem Rewired.mono {here there : List Position} {new : Nat} (rewired : Rewired m s t here new)
    (within : here ⊆ there) : Rewired m s t there new :=
  ⟨fun p outside => rewired.elsewhere p fun member => outside (within member), rewired.size,
    rewired.issued, rewired.labels, rewired.nextLabel, rewired.returns⟩

section Linking

variable {before after : Option Position} {cells : List Cell}

theorem Front.congr (front : Front m s cells after) (head : t.head = s.head)
    (same : ∀ p ∈ cells.map (·.pos), m.get? t.nodes p = m.get? s.nodes p) :
    Front m t cells after :=
  ⟨front.chained.congr same, head.trans front.head⟩

theorem Back.congr (back : Back m s before cells) (tail : t.tail = s.tail)
    (same : ∀ p ∈ cells.map (·.pos), m.get? t.nodes p = m.get? s.nodes p) :
    Back m t before cells :=
  ⟨back.chained.congr same, tail.trans back.tail⟩

theorem rewired_set (lawful : m.Lawful) {p : Position} {old : Node}
    (found : m.get? s.nodes p = some old) (node : Node) :
    Rewired m s { s with nodes := m.set s.nodes p node } [p] 0 where
  elsewhere q outside := by
    rw [lawful.get_set found, if_neg (by simpa using outside)]
  size := lawful.size_set found node
  issued := lawful.issued_set found node
  labels := rfl
  nextLabel := rfl
  returns := rfl

theorem Front.linkNext (lawful : m.Lawful) (front : Front m s cells after)
    (distinct : (cells.map (·.pos)).Nodup) (target : Option Position) :
    ∃ t, s.linkNext m (exit none cells) target = some t ∧ Front m t cells target ∧
      t.tail = s.tail ∧ Rewired m s t (cells.map (·.pos)) 0 := by
  cases cells using List.reverseRecOn with
  | nil =>
    exact ⟨{ s with head := target }, rfl, ⟨trivial, rfl⟩, rfl,
      ⟨fun _ _ => rfl, rfl, rfl, rfl, rfl, rfl⟩⟩
  | append_singleton xs c =>
    have found := front.chained.at
    have apart : ∀ p ∈ xs.map (·.pos), p ≠ c.pos := by
      rintro p member rfl
      simp only [List.map_append, List.map_cons, List.map_nil] at distinct
      exact List.disjoint_of_nodup_append distinct member (by simp)
    have written := rewired_set lawful found ⟨c.insn, exit none xs, target⟩
    refine ⟨{ s with nodes := m.set s.nodes c.pos ⟨c.insn, exit none xs, target⟩ }, ?_, ⟨?_, ?_⟩,
      rfl, written.mono (by simp)⟩
    · rw [exit_concat]
      simp only [linkNext, found, Option.bind_eq_bind, Option.bind_some]
    · refine chained_append.mpr ⟨?_, ?_, trivial⟩
      · exact (chained_append.mp front.chained).1.congr fun p member =>
          written.elsewhere p (by simpa using apart p member)
      · exact (lawful.get_set found _ _).trans (if_pos rfl)
    · have head := front.head
      simpa using head

theorem Back.linkPrev (lawful : m.Lawful) (back : Back m s before cells)
    (distinct : (cells.map (·.pos)).Nodup) (target : Option Position) :
    ∃ t, s.linkPrev m (entry cells none) target = some t ∧ Back m t target cells ∧
      t.head = s.head ∧ Rewired m s t (cells.map (·.pos)) 0 := by
  cases cells with
  | nil =>
    exact ⟨{ s with tail := target }, rfl, ⟨trivial, rfl⟩, rfl,
      ⟨fun _ _ => rfl, rfl, rfl, rfl, rfl, rfl⟩⟩
  | cons c ys =>
    have found := back.chained.1
    have apart : ∀ p ∈ ys.map (·.pos), p ≠ c.pos := by
      rintro p member rfl
      exact (List.nodup_cons.mp distinct).1 member
    have written := rewired_set lawful found ⟨c.insn, target, entry ys none⟩
    refine ⟨{ s with nodes := m.set s.nodes c.pos ⟨c.insn, target, entry ys none⟩ }, ?_, ⟨?_, ?_⟩,
      rfl, written.mono (by simp)⟩
    · rw [entry_cons]
      simp only [linkPrev, found, Option.bind_eq_bind, Option.bind_some]
    · refine ⟨(lawful.get_set found _ _).trans (if_pos rfl), ?_⟩
      exact back.chained.2.congr fun p member =>
        written.elsewhere p (by simpa using apart p member)
    · have tail := back.tail
      simpa using tail

theorem Front.extend (lawful : m.Lawful) (front : Front m s cells after)
    (distinct : (cells.map (·.pos)).Nodup) (insn : Instruction) :
    ∃ t, ({ s with nodes := (m.insert s.nodes ⟨insn, exit none cells, none⟩).2 }).linkNext m
        (exit none cells) (some ⟨m.issued s.nodes⟩) = some t ∧
      Front m t (cells ++ [⟨⟨m.issued s.nodes⟩, insn⟩]) none ∧ t.tail = s.tail ∧
      Rewired m s t (cells.map (·.pos) ++ [⟨m.issued s.nodes⟩]) 1 := by
  have position := lawful.insert_position s.nodes ⟨insn, exit none cells, none⟩
  have get := lawful.get_insert s.nodes ⟨insn, exit none cells, none⟩
  rw [position] at get
  have new : (⟨m.issued s.nodes⟩ : Position) ∉ cells.map (·.pos) := fun old =>
    Nat.lt_irrefl _ (front.chained.serial_lt lawful old)
  have added : Rewired m s
      { s with nodes := (m.insert s.nodes ⟨insn, exit none cells, none⟩).2 }
      [⟨m.issued s.nodes⟩] 1 :=
    { elsewhere := fun p outside => (get p).trans (if_neg (by simpa using outside))
      size := lawful.size_insert _ _
      issued := lawful.issued_insert _ _
      labels := rfl
      nextLabel := rfl
      returns := rfl }
  have kept : Front m { s with nodes := (m.insert s.nodes ⟨insn, exit none cells, none⟩).2 }
      cells after := front.congr rfl fun p member => added.elsewhere p (by
    rw [List.mem_singleton]
    rintro rfl
    exact new member)
  obtain ⟨t, linked, front, tail, rewired⟩ :=
    kept.linkNext lawful distinct (some ⟨m.issued s.nodes⟩)
  refine ⟨t, linked, ⟨chained_append.mpr ⟨front.chained, ?_, trivial⟩, ?_⟩, tail, ?_⟩
  · rw [rewired.elsewhere _ new]
    exact (get _).trans (if_pos rfl)
  · simpa using front.head
  · refine (added.trans rewired).mono fun p member => ?_
    exact List.mem_append.mpr (List.mem_append.mp member).symm

theorem Front.chain (lawful : m.Lawful) (front : Front m s cells after)
    (distinct : (cells.map (·.pos)).Nodup) (code : List Instruction) :
    ∃ t behind, s.chain m (exit none cells) code =
        some ((Stream.numbered (m.issued s.nodes) code).map (·.pos),
          exit none (cells ++ Stream.numbered (m.issued s.nodes) code), t) ∧
      Front m t (cells ++ Stream.numbered (m.issued s.nodes) code) behind ∧ t.tail = s.tail ∧
      Rewired m s t ((cells ++ Stream.numbered (m.issued s.nodes) code).map (·.pos))
        code.length := by
  induction code generalizing s cells after with
  | nil =>
    refine ⟨s, after, by simp [LinkedStream.chain, Stream.numbered], ?_, rfl,
      ⟨fun _ _ => rfl, rfl, rfl, rfl, rfl, rfl⟩⟩
    simpa [Stream.numbered] using front
  | cons insn code ih =>
    obtain ⟨t, linked, longer, tail, rewired⟩ := front.extend lawful distinct insn
    have position := lawful.insert_position s.nodes ⟨insn, exit none cells, none⟩
    have more : ((cells ++ [(⟨⟨m.issued s.nodes⟩, insn⟩ : Cell)]).map (·.pos)).Nodup := by
      rw [List.map_append]
      refine List.Nodup.append distinct (by simp) fun p old here => ?_
      obtain rfl : p = ⟨m.issued s.nodes⟩ := by simpa using here
      exact Nat.lt_irrefl _ (front.chained.serial_lt lawful old)
    obtain ⟨u, behind, chained, whole, last, others⟩ := ih longer more
    have next : m.issued t.nodes = m.issued s.nodes + 1 := rewired.issued
    rw [next, List.append_assoc] at whole others
    rw [next, exit_concat] at chained
    refine ⟨u, behind, ?_, whole, last.trans tail, ?_⟩
    · simp only [LinkedStream.chain, position, Option.bind_eq_bind, linked, Option.bind_some,
        chained]
      simp [Stream.numbered]
    · rw [List.length_cons, Nat.add_comm]
      refine (rewired.trans others).mono fun p member => ?_
      simp only [List.map_append, List.mem_append, Stream.numbered, List.map_cons,
        List.mem_cons, List.map_nil, List.not_mem_nil, or_false] at member ⊢
      tauto

/-- New nodes go in between a front and a back: behind the one, and then both seams are closed. -/
theorem link_between (lawful : m.Lawful) {before after : List Cell}
    (front : Front m s before (entry after none)) (back : Back m s (exit none before) after)
    (distinct : ((before ++ after).map (·.pos)).Nodup) (code : List Instruction) :
    ∃ t u v last, last = exit none (before ++ Stream.numbered (m.issued s.nodes) code) ∧
      s.chain m (exit none before) code =
        some ((Stream.numbered (m.issued s.nodes) code).map (·.pos), last, t) ∧
      t.linkPrev m (entry after none) last = some u ∧
      u.linkNext m last (entry after none) = some v ∧
      Front m v (before ++ Stream.numbered (m.issued s.nodes) code) (entry after none) ∧
      Back m v last after ∧
      ((before ++ Stream.numbered (m.issued s.nodes) code ++ after).map (·.pos)).Nodup ∧
      Rewired m s v ((before ++ Stream.numbered (m.issued s.nodes) code ++ after).map (·.pos))
        code.length := by
  rw [List.map_append] at distinct
  obtain ⟨distinctBefore, distinctAfter, apart⟩ := List.nodup_append'.mp distinct
  have new : ∀ {p}, p ∈ (Stream.numbered (m.issued s.nodes) code).map (·.pos) →
      ¬p.serial < m.issued s.nodes := fun member => Nat.not_lt.mpr (Stream.mem_numbered.mp member).1
  have distinctLonger :
      ((before ++ Stream.numbered (m.issued s.nodes) code).map (·.pos)).Nodup := by
    rw [List.map_append]
    exact List.Nodup.append distinctBefore (Stream.nodup_numbered _ _) fun p old here =>
      new here (front.chained.serial_lt lawful old)
  have outside : ∀ p ∈ after.map (·.pos),
      p ∉ (before ++ Stream.numbered (m.issued s.nodes) code).map (·.pos) := by
    intro p member here
    rw [List.map_append, List.mem_append] at here
    rcases here with old | here
    · exact apart old member
    · exact new here (back.chained.serial_lt lawful member)
  obtain ⟨t, behind, chained, longer, tail, rewired⟩ := front.chain lawful distinctBefore code
  have backT : Back m t (exit none before) after :=
    back.congr tail fun p member => rewired.elsewhere p (outside p member)
  obtain ⟨u, ledBack, backU, head, rewiredU⟩ := backT.linkPrev lawful distinctAfter
    (exit none (before ++ Stream.numbered (m.issued s.nodes) code))
  have frontU := longer.congr head fun p member => rewiredU.elsewhere p fun there =>
    outside p there member
  obtain ⟨v, ledOn, frontV, tailV, rewiredV⟩ :=
    frontU.linkNext lawful distinctLonger (entry after none)
  have backV := backU.congr tailV fun p member => rewiredV.elsewhere p (outside p member)
  refine ⟨t, u, v, _, rfl, chained, ledBack, ledOn, frontV, backV, ?_, ?_⟩
  · rw [List.map_append, List.nodup_append']
    exact ⟨distinctLonger, distinctAfter, fun p here there => outside p there here⟩
  · refine ((rewired.trans rewiredU).trans rewiredV).mono fun p member => ?_
    simp only [List.map_append, List.mem_append] at member ⊢
    tauto

end Linking

end Interpose.LinkedStream
