import Interpose.Proofs.Stream.Changes
import Interpose.Proofs.Stream.Simulation

/-!
A stream in storage is a list of instructions at positions. Whatever a stream is made from and
whatever is done to it after that, no operation faults, every answer is the one that the list gives,
and everything that can be observed of the stream is read off the list.
-/

set_option autoImplicit false
set_option relaxedAutoImplicit false

namespace Interpose

namespace LinkedStream

variable {σ : Type} (m : SlotMap σ)

def perform (k : LinkedStream σ) : Change → Option (Change.Answer × LinkedStream σ)
  | .insertBefore p b => (k.insertBefore m p b).map fun (r, t) => (r.map .inserted, t)
  | .insertAfter p b => (k.insertAfter m p b).map fun (r, t) => (r.map .inserted, t)
  | .append b => (k.append m b).map fun (r, t) => (r.map .inserted, t)
  | .remove span => (k.remove m span).map fun (r, t) => (r.map .removed, t)
  | .replace p insn => some ((k.replace m p insn).1.map .replaced, (k.replace m p insn).2)
  | .markLabel l p => some ((k.markLabel m l p).1.map fun _ => .marked, (k.markLabel m l p).2)
  | .retarget l p => some ((k.retarget m l p).1.map fun _ => .marked, (k.retarget m l p).2)
  | .defineLabel => some (.ok (.defined k.defineLabel.1), k.defineLabel.2)

def run (k : LinkedStream σ) :
    List Change → Option (List Change.Answer × LinkedStream σ)
  | [] => some ([], k)
  | c :: cs => do
    let (answer, k) ← k.perform m c
    let (answers, k) ← run k cs
    some (answer :: answers, k)

end LinkedStream

/-- What a stream is made from. -/
inductive Origin
  | new
  | instructions (code : List Instruction)
  | body (b : Body)

namespace Origin

def listed : Origin → Except StreamError Stream
  | .new => .ok .empty
  | .instructions code => .ok (.ofInstructions code)
  | .body b => Stream.ofBody b

def linked {σ : Type} (m : SlotMap σ) : Origin → Option (Except StreamError (LinkedStream σ))
  | .new => some (.ok (.empty m))
  | .instructions code => (LinkedStream.ofInstructions m code).map .ok
  | .body b => LinkedStream.ofBody m b

end Origin

/-- Everything that can be observed of a stream in storage is read off a list. -/
structure LinkedStream.Shows {σ : Type} (m : SlotMap σ) (k : LinkedStream σ) (s : Stream) :
    Prop where
  positions : k.positions m = some s.positions
  distinct : s.positions.Nodup
  size : k.size m = s.positions.length
  contains : ∀ p, k.contains m p = true ↔ p ∈ s.positions
  insn : ∀ p insn, k.insn? m p = some insn ↔ ⟨p, insn⟩ ∈ s.cells
  first : k.first? = s.positions.head?
  last : k.last? = s.positions.getLast?
  next : ∀ p q, k.next? m p = some q ↔
    ∃ i, s.positions[i]? = some p ∧ s.positions[i + 1]? = some q
  inverse : ∀ p q, k.prev? m q = some p ↔ k.next? m p = some q
  index : ∀ p, ∃ found, k.index? m p = some found ∧
    ∀ i, found = some i ↔ s.positions[i]? = some p
  position : ∀ i, k.position? m i = some s.positions[i]?
  span : ∀ {p q} {i j : Nat}, s.positions[i]? = some p → s.positions[j]? = some q →
    k.spanPositions m ⟨p, q⟩ = some
      (if i ≤ j then .ok ((s.positions.drop i).take (j + 1 - i)) else .error .invalidSpan)
  unknown : ∀ span : Span, span.first ∉ s.positions ∨ span.last ∉ s.positions →
    k.spanPositions m span = some (.error .unknownPosition)
  labels : k.labels = s.labels

namespace LinkedStream.Represents

variable {σ : Type} {m : SlotMap σ} {k : LinkedStream σ} {s : Stream}

theorem node_at (rep : Represents m k s) {i : Nat} {p : Position}
    (here : s.positions[i]? = some p) :
    ∃ before c after, s.cells = before ++ c :: after ∧ before.length = i ∧ c.pos = p ∧
      m.get? k.nodes p = some ⟨c.insn, exit none before, s.positions[i + 1]?⟩ := by
  obtain ⟨within, rfl⟩ := List.getElem?_eq_some_iff.mp here
  simp only [Stream.positions, List.length_map, List.getElem_map] at within ⊢
  have whole : s.cells = s.cells.take i ++ s.cells[i] :: s.cells.drop (i + 1) := by
    rw [← List.drop_eq_getElem_cons within, List.take_append_drop]
  have behind : entry (s.cells.drop (i + 1)) none = (s.cells.map (·.pos))[i + 1]? := by
    rw [entry_none, List.map_drop, List.head?_drop]
  refine ⟨_, _, _, whole, ?_, rfl, ?_⟩
  · rw [List.length_take]
    omega
  · rw [← behind]
    exact rep.node whole

theorem next_at (rep : Represents m k s) {i : Nat} {p : Position}
    (here : s.positions[i]? = some p) : k.next? m p = s.positions[i + 1]? := by
  obtain ⟨before, c, after, -, -, -, found⟩ := rep.node_at here
  simp [LinkedStream.next?, found]

theorem prev_at (rep : Represents m k s) {i : Nat} {q : Position}
    (here : s.positions[i + 1]? = some q) : k.prev? m q = s.positions[i]? := by
  obtain ⟨before, c, after, whole, size, -, found⟩ := rep.node_at here
  have inside : i < before.length := by omega
  have last : exit none before = s.positions[i]? := by
    rw [exit_none, List.getLast?_eq_getElem?, Stream.positions, whole, List.map_append,
      List.getElem?_append_left (by simpa using inside), List.length_map, size, Nat.add_sub_cancel]
  simp [LinkedStream.prev?, found, last]

theorem prev_first (rep : Represents m k s) {q : Position} (here : s.positions[0]? = some q) :
    k.prev? m q = none := by
  obtain ⟨before, c, after, -, size, -, found⟩ := rep.node_at here
  rw [List.length_eq_zero_iff] at size
  simp [LinkedStream.prev?, found, size]

theorem linked_mem (rep : Represents m k s) {p : Position} {β : Type} {link : Node → Option β}
    {b : β} (linked : (m.get? k.nodes p).bind link = some b) :
    ∃ i : Nat, s.positions[i]? = some p := by
  obtain ⟨node, found, -⟩ := Option.bind_eq_some_iff.mp linked
  exact List.mem_iff_getElem?.mp (rep.only found)

theorem next_iff (rep : Represents m k s) {p q : Position} : k.next? m p = some q ↔
    ∃ i : Nat, s.positions[i]? = some p ∧ s.positions[i + 1]? = some q := by
  constructor
  · intro linked
    obtain ⟨i, here⟩ := rep.linked_mem linked
    exact ⟨i, here, (rep.next_at here).symm.trans linked⟩
  · rintro ⟨i, here, behind⟩
    exact (rep.next_at here).trans behind

theorem prev_iff (rep : Represents m k s) {p q : Position} : k.prev? m q = some p ↔
    ∃ i : Nat, s.positions[i]? = some p ∧ s.positions[i + 1]? = some q := by
  constructor
  · intro linked
    obtain ⟨j, here⟩ := rep.linked_mem linked
    cases j with
    | zero =>
      rw [rep.prev_first here] at linked
      cases linked
    | succ i => exact ⟨i, (rep.prev_at here).symm.trans linked, here⟩
  · rintro ⟨i, front, here⟩
    exact (rep.prev_at here).trans front

theorem index_iff (rep : Represents m k s) {p : Position} {i : Nat} :
    (s.positions.findIdx? fun q => q = p) = some i ↔ s.positions[i]? = some p := by
  rw [List.findIdx?_eq_some_iff_getElem]
  constructor
  · rintro ⟨inside, here, -⟩
    rw [List.getElem?_eq_getElem inside, of_decide_eq_true here]
  · intro here
    obtain ⟨inside, found⟩ := List.getElem?_eq_some_iff.mp here
    refine ⟨inside, by simp [found], fun j less there => ?_⟩
    have same : s.positions[j] = s.positions[i] := (of_decide_eq_true there).trans found.symm
    exact Nat.ne_of_lt less ((List.Nodup.getElem_inj_iff rep.distinct).mp same)

theorem shows (rep : Represents m k s) : k.Shows m s where
  positions := rep.positions
  distinct := rep.distinct
  size := by rw [LinkedStream.size, rep.size, Stream.positions, List.length_map]
  contains p := by rw [rep.contains, Stream.contains_iff]
  insn p insn := by
    constructor
    · intro known
      obtain ⟨node, found, rfl⟩ := Option.map_eq_some_iff.mp known
      obtain ⟨c, here, rfl⟩ := List.mem_map.mp (rep.only found)
      obtain ⟨prev, next, same⟩ := rep.front.chained.mem here
      obtain rfl := Option.some.inj (found.symm.trans same)
      exact here
    · intro here
      obtain ⟨prev, next, found⟩ := rep.front.chained.mem here
      simp [LinkedStream.insn?, found]
  first := by rw [LinkedStream.first?, rep.front.head, entry_none, Stream.positions]
  last := by rw [LinkedStream.last?, rep.tail, exit_none, Stream.positions]
  next p q := rep.next_iff
  inverse p q := by rw [rep.prev_iff, rep.next_iff]
  index p := by
    refine ⟨_, ?_, fun i => rep.index_iff⟩
    rw [LinkedStream.index?, rep.positions]
    rfl
  position i := by
    rw [LinkedStream.position?, rep.positions]
    rfl
  span first last := by rw [rep.spanPositions, Stream.spanPositions_at rep.distinct first last]
  unknown span absent := by rw [rep.spanPositions, Stream.spanPositions_unknown absent]
  labels := rep.labels

theorem perform (lawful : m.Lawful) (rep : Represents m k s) (c : Change) :
    ∃ t, k.perform m c = some ((s.perform c).1, t) ∧ Represents m t (s.perform c).2 := by
  cases c with
  | insertBefore p b =>
    obtain ⟨t, done, after⟩ := rep.insertBefore (b := b) lawful p
    exact ⟨t, by simp [LinkedStream.perform, Stream.perform, done], after⟩
  | insertAfter p b =>
    obtain ⟨t, done, after⟩ := rep.insertAfter (b := b) lawful p
    exact ⟨t, by simp [LinkedStream.perform, Stream.perform, done], after⟩
  | append b =>
    obtain ⟨t, done, after⟩ := rep.append (b := b) lawful
    exact ⟨t, by simp [LinkedStream.perform, Stream.perform, done], after⟩
  | remove span =>
    obtain ⟨t, done, after⟩ := rep.remove lawful span
    exact ⟨t, by simp [LinkedStream.perform, Stream.perform, done], after⟩
  | replace p insn =>
    obtain ⟨answer, after⟩ := rep.replace lawful p insn
    exact ⟨_, by simp [LinkedStream.perform, Stream.perform, answer], after⟩
  | markLabel l p =>
    obtain ⟨answer, after⟩ := rep.markLabel l p
    exact ⟨_, by simp [LinkedStream.perform, Stream.perform, answer], after⟩
  | retarget l p =>
    obtain ⟨answer, after⟩ := rep.retarget l p
    exact ⟨_, by simp [LinkedStream.perform, Stream.perform, answer], after⟩
  | defineLabel =>
    obtain ⟨answer, after⟩ := rep.defineLabel
    exact ⟨_, by simp [LinkedStream.perform, Stream.perform, answer], after⟩

theorem run (lawful : m.Lawful) (rep : Represents m k s) (cs : List Change) :
    ∃ t, k.run m cs = some ((s.run cs).1, t) ∧ Represents m t (s.run cs).2 := by
  induction cs generalizing k s with
  | nil => exact ⟨k, rfl, rep⟩
  | cons c cs ih =>
    obtain ⟨t, done, one⟩ := rep.perform lawful c
    obtain ⟨u, others, all⟩ := ih one
    refine ⟨u, ?_, all⟩
    simp only [LinkedStream.run, done, others, Option.bind_eq_bind, Option.bind_some, Stream.run]

theorem serial_lt (lawful : m.Lawful) (rep : Represents m k s) {p : Position}
    (member : p ∈ s.positions) : p.serial < s.nextSerial :=
  rep.issued ▸ rep.front.chained.serial_lt lawful member

end LinkedStream.Represents

/-- Storage is loaded with what the list is loaded with, or refused with the same error. -/
theorem Origin.represented {σ : Type} {m : SlotMap σ} (lawful : m.Lawful) (o : Origin) :
    match o.listed with
    | .error e => o.linked m = some (.error e)
    | .ok s => ∃ k, o.linked m = some (.ok k) ∧ k.Represents m s := by
  cases o with
  | new => exact ⟨_, rfl, LinkedStream.Represents.empty lawful false⟩
  | instructions code =>
    obtain ⟨k, loaded, rep⟩ := LinkedStream.Represents.ofInstructions lawful code
    exact ⟨k, by simp [Origin.linked, loaded], rep⟩
  | body b => exact LinkedStream.ofBody_eq lawful b

/-- Whatever a stream in storage is made from, it is the list that the same is made into, and it
stays that list along any run of changes. -/
theorem linkedStream_refines_list {σ : Type} {m : SlotMap σ} (lawful : m.Lawful) (o : Origin) :
    (∀ e, o.listed = .error e → o.linked m = some (.error e)) ∧
    ∀ s, o.listed = .ok s → ∃ k, o.linked m = some (.ok k) ∧
      (∀ cs, ∃ t, k.run m cs = some ((s.run cs).1, t) ∧ t.Shows m (s.run cs).2) ∧
      (∀ cs c, (s.run cs).2.Effect c ((s.run cs).2.perform c).1 ((s.run cs).2.perform c).2) ∧
      (∀ cs ds p insn, ⟨p, insn⟩ ∈ (s.run cs).2.cells → ⟨p, insn⟩ ∈ (s.run (cs ++ ds)).2.cells ∨
        ∃ before c after, ds = before ++ c :: after ∧
          (∃ a, ((s.run (cs ++ before)).2.perform c).1 = .ok a) ∧
          (s.run (cs ++ before)).2.Takes p c) ∧
      ∀ cs ds es p, p ∈ (s.run cs).2.positions → p ∉ (s.run (cs ++ ds)).2.positions →
        p ∉ (s.run (cs ++ ds ++ es)).2.positions := by
  have loaded := o.represented lawful
  refine ⟨fun e refused => ?_, fun s done => ?_⟩
  · rw [refused] at loaded
    exact loaded
  rw [done] at loaded
  obtain ⟨k, linked, rep⟩ := loaded
  have along : ∀ cs, ∃ t, k.run m cs = some ((s.run cs).1, t) ∧ t.Represents m (s.run cs).2 :=
    rep.run lawful
  have distinct : ∀ cs, (s.run cs).2.positions.Nodup := fun cs => by
    obtain ⟨t, -, after⟩ := along cs
    exact after.distinct
  have onward : ∀ cs ds, ((s.run cs).2.run ds).2.positions.Nodup := fun cs ds =>
    s.run_append cs ds ▸ distinct (cs ++ ds)
  refine ⟨k, linked, fun cs => ?_, fun cs c => ?_, fun cs ds p insn here => ?_,
    fun cs ds es p here gone => ?_⟩
  · obtain ⟨t, ran, after⟩ := along cs
    exact ⟨t, ran, after.shows⟩
  · exact Stream.perform_effect (distinct cs) c
  · rw [Stream.run_append]
    rcases Stream.run_keeps (onward cs) here ds with still | ⟨before, c, after, rfl, done, takes⟩
    · exact .inl still
    · rw [← Stream.run_append] at done takes
      exact .inr ⟨before, c, after, rfl, done, takes⟩
  · obtain ⟨t, -, after⟩ := along cs
    have issued := Nat.lt_of_lt_of_le (after.serial_lt lawful here)
      (Stream.run_grows (onward cs) ds)
    rw [← Stream.run_append] at issued
    rw [Stream.run_append]
    exact Stream.run_gone (onward (cs ++ ds)) issued gone es

/-- A label moves behind the span that is removed, and the positions of the span are not given out
again. -/
theorem ledger_removes : ∃ k t,
    (Origin.instructions [⟨.nop, .none⟩, ⟨.pop, .none⟩, ⟨.ret, .none⟩]).linked .ledger =
      some (.ok k) ∧
    k.run .ledger [.markLabel ⟨0⟩ ⟨1⟩, .remove ⟨⟨0⟩, ⟨1⟩⟩,
        .insertBefore ⟨2⟩ ⟨[⟨.nop, .none⟩], []⟩, .replace ⟨0⟩ ⟨.nop, .none⟩] =
      some ([.ok .marked, .ok (.removed [⟨.nop, .none⟩, ⟨.pop, .none⟩]),
        .ok (.inserted ⟨⟨3⟩, ⟨3⟩⟩), .error .unknownPosition], t) ∧
    t.positions .ledger = some [⟨3⟩, ⟨2⟩] ∧ t.labels.find? ⟨0⟩ = some ⟨2⟩ := by
  obtain ⟨k, loaded, along, -⟩ :=
    (linkedStream_refines_list SlotMap.ledger_lawful (.instructions _)).2 _ rfl
  obtain ⟨t, ran, shows⟩ := along [.markLabel ⟨0⟩ ⟨1⟩, .remove ⟨⟨0⟩, ⟨1⟩⟩,
    .insertBefore ⟨2⟩ ⟨[⟨.nop, .none⟩], []⟩, .replace ⟨0⟩ ⟨.nop, .none⟩]
  exact ⟨k, t, loaded, ran, shows.positions, by rw [shows.labels]; rfl⟩

end Interpose
