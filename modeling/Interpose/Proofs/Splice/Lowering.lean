import Interpose.Proofs.Stream.WellFormed
import Interpose.Template
import Mathlib.Data.List.Dedup

/-!
What a template is lowered to. Every element denotes some code as soon as its symbols have labels;
the block is that code in order, every symbol has a new label of its own, and the block binds each
label to the place that its symbol stands for.
-/

set_option autoImplicit false
set_option relaxedAutoImplicit false

namespace Interpose

def TemplateOp.code (loads : Loads) (name : Symbol → Label) : TemplateOp → List Instruction
  | .loadActive => loads.active
  | .typeTest => [.isinst loads.capability]
  | .loadCapture index => loads.captures[index]?.getD []
  | .invokeCallback => [.call loads.callback]
  | .branch symbol => [.br (name symbol)]
  | .branchTrue symbol => [.brtrue (name symbol)]
  | .branchFalse symbol => [.brfalse (name symbol)]
  | .mark _ => []
  | .emit insn => [insn]

/-- The symbol of an element: the one it branches to or marks. -/
def TemplateOp.symbol? : TemplateOp → Option Symbol
  | .mark name => some (.named name)
  | op => op.target?

/-- The continue and the skip target, which are places of the stream. -/
def Symbol.fixed : Symbol → Bool
  | .named _ => false
  | _ => true

def TemplateOp.size (loads : Loads) : TemplateOp → Nat
  | .loadActive => loads.active.length
  | .loadCapture index => (loads.captures[index]?.getD []).length
  | .mark _ => 0
  | _ => 1

theorem TemplateOp.code_length (loads : Loads) (name : Symbol → Label) (op : TemplateOp) :
    (op.code loads name).length = op.size loads := by
  cases op <;> rfl

theorem TemplateOp.code_congr {loads : Loads} (name other : Symbol → Label) {op : TemplateOp}
    (same : ∀ symbol, op.target? = some symbol → name symbol = other symbol) :
    op.code loads name = op.code loads other := by
  cases op <;> simp_all [code, target?]

namespace Template

def code (loads : Loads) (name : Symbol → Label) (t : Template) : List Instruction :=
  t.flatMap (TemplateOp.code loads name)

def size (loads : Loads) : Template → Nat
  | [] => 0
  | op :: t => op.size loads + size loads t

/-- A template marks a name in front of the instruction with an index. -/
def MarksAt (loads : Loads) (t : Template) (name : String) (index : Nat) : Prop :=
  ∃ front back : Template, t = front ++ .mark name :: back ∧ index = front.size loads

def symbols (t : Template) : List Symbol := t.filterMap TemplateOp.symbol?

/-- The symbols of a template that have a place: in the stream, or where the template marks them. -/
def placed (t : Template) : List Symbol :=
  t.symbols.dedup.filter Symbol.fixed ++ t.marks.map Symbol.named

/-- The place that a symbol stands for. -/
inductive Stands (loads : Loads) (t : Template) (resumeAt skipAt : Position) :
    Symbol → Binding → Prop
  | resume : Stands loads t resumeAt skipAt .resume (.existing resumeAt)
  | skip : Stands loads t resumeAt skipAt .skip (.existing skipAt)
  | named {name : String} {index : Nat} : t.MarksAt loads name index →
      Stands loads t resumeAt skipAt (.named name) (.inner index)

variable {loads : Loads} {t : Template} {s : Stream} {resumeAt skipAt : Position}

@[simp] theorem code_append (name : Symbol → Label) (t u : Template) :
    code loads name (t ++ u) = code loads name t ++ code loads name u :=
  List.flatMap_append

@[simp] theorem code_cons (name : Symbol → Label) (op : TemplateOp) (t : Template) :
    code loads name (op :: t) = op.code loads name ++ code loads name t := rfl

@[simp] theorem size_nil : size loads [] = 0 := rfl

@[simp] theorem size_cons (op : TemplateOp) (t : Template) :
    size loads (op :: t) = op.size loads + size loads t := rfl

@[simp] theorem size_append (t u : Template) :
    size loads (t ++ u) = size loads t + size loads u := by
  induction t with
  | nil => simp
  | cons op t ih => simp only [List.cons_append, size_cons, ih, Nat.add_assoc]

@[simp] theorem code_length (name : Symbol → Label) (t : Template) :
    (code loads name t).length = t.size loads := by
  induction t with
  | nil => rfl
  | cons op t ih => simp only [code_cons, List.length_append, TemplateOp.code_length, ih, size_cons]

theorem mem_marks {t : Template} {name : String} : name ∈ t.marks ↔ .mark name ∈ t := by
  simp only [marks, List.mem_filterMap]
  constructor
  · rintro ⟨op, member, named⟩
    cases op <;> simp_all
  · exact fun member => ⟨_, member, rfl⟩

@[simp] theorem marks_append (t u : Template) : marks (t ++ u) = t.marks ++ u.marks :=
  List.filterMap_append

theorem MarksAt.mem {name : String} {index : Nat} (marked : t.MarksAt loads name index) :
    .mark name ∈ t := by
  obtain ⟨front, back, rfl, -⟩ := marked
  simp

theorem marksAt_append {op : TemplateOp} {name : String} {index : Nat} :
    MarksAt loads (t ++ [op]) name index ↔
      t.MarksAt loads name index ∨ op = .mark name ∧ index = t.size loads := by
  constructor
  · rintro ⟨front, back, whole, rfl⟩
    rcases List.eq_nil_or_concat back with rfl | ⟨back, final, rfl⟩
    · obtain ⟨rfl, same⟩ := List.append_inj' whole rfl
      exact .inr ⟨List.singleton_inj.mp same, rfl⟩
    · rw [List.concat_eq_append, ← List.cons_append, ← List.append_assoc] at whole
      exact .inl ⟨front, back, (List.append_inj' whole rfl).1, rfl⟩
  · rintro (⟨front, back, rfl, rfl⟩ | ⟨rfl, rfl⟩)
    · exact ⟨front, back ++ [op], by simp, rfl⟩
    · exact ⟨t, [], rfl, rfl⟩

theorem stands_append {op : TemplateOp} {symbol : Symbol} {binding : Binding} :
    Stands loads (t ++ [op]) resumeAt skipAt symbol binding ↔
      Stands loads t resumeAt skipAt symbol binding ∨
        ∃ name, op = .mark name ∧ symbol = .named name ∧ binding = .inner (t.size loads) := by
  constructor
  · rintro (_ | _ | ⟨marked⟩)
    · exact .inl .resume
    · exact .inl .skip
    · rcases marksAt_append.mp marked with before | ⟨rfl, rfl⟩
      · exact .inl (.named before)
      · exact .inr ⟨_, rfl, rfl, rfl⟩
  · rintro ((_ | _ | ⟨marked⟩) | ⟨name, rfl, rfl, rfl⟩)
    · exact .resume
    · exact .skip
    · exact .named (marksAt_append.mpr (.inl marked))
    · exact .named (marksAt_append.mpr (.inr ⟨rfl, rfl⟩))

/-! ### The run of a lowering -/

namespace Lowering

def name (w : Lowering) (symbol : Symbol) : Label := (w.symbols.lookup symbol).getD default

/-- What holds when a lowering of `t` for the stream `s` is under way, `t` being done. -/
structure Runs (loads : Loads) (s : Stream) (resumeAt skipAt : Position) (t : Template)
    (w : Lowering) : Prop where
  stream : w.stream = { s with nextLabel := s.nextLabel + .ofNat w.symbols.length }
  once : (w.symbols.map (·.1)).Nodup
  labels : w.symbols.map (·.2) = (s.upcoming w.symbols.length).reverse
  known : ∀ op ∈ t, ∀ symbol, op.symbol? = some symbol → symbol ∈ w.symbols.map (·.1)
  code : ∀ name : Symbol → Label, (∀ e ∈ w.symbols, name e.1 = e.2) →
    w.block.code = t.code loads name
  bound : ∀ l binding, (l, binding) ∈ w.block.bindings ↔
    ∃ symbol, (symbol, l) ∈ w.symbols ∧ t.Stands loads resumeAt skipAt symbol binding
  placed : ∀ name : Symbol → Label, (∀ e ∈ w.symbols, name e.1 = e.2) →
    (w.block.bindings.map (·.1)).Perm
      (((w.symbols.map (·.1)).filter Symbol.fixed ++ t.marks.map Symbol.named).map name)

variable {w : Lowering}

theorem lookup_mem {symbols : List (Symbol × Label)} {symbol : Symbol} {l : Label}
    (found : symbols.lookup symbol = some l) : (symbol, l) ∈ symbols := by
  obtain ⟨front, back, rfl, -⟩ := List.lookup_eq_some_iff.mp found
  exact List.mem_append_right _ List.mem_cons_self

theorem lookup_none_iff {symbols : List (Symbol × Label)} {symbol : Symbol} :
    symbols.lookup symbol = none ↔ symbol ∉ symbols.map (·.1) := by
  simp only [List.lookup_eq_none_iff, List.mem_map, not_exists, not_and, bne_iff_ne, ne_eq]
  exact forall₂_congr fun e _ => not_congr eq_comm

theorem name_of_mem (once : (w.symbols.map (·.1)).Nodup) {symbol : Symbol} {l : Label}
    (member : (symbol, l) ∈ w.symbols) : w.name symbol = l := by
  cases found : w.symbols.lookup symbol with
  | none => exact absurd (List.mem_map_of_mem member) (lookup_none_iff.mp found)
  | some k =>
    have same := List.inj_on_of_nodup_map once (lookup_mem found) member rfl
    simp [name, found, (Prod.mk.inj same).2]

theorem runs_start : Runs loads s resumeAt skipAt [] ⟨s, [], .empty⟩ where
  stream := by simp
  once := .nil
  labels := rfl
  known := by simp
  code := fun _ _ => rfl
  bound := by simp [Block.empty]
  placed := fun _ _ => .nil

/-- A symbol met for the first time: it gets the next label, which the block binds unless the place
is in the template. -/
theorem Runs.meet (runs : Runs loads s resumeAt skipAt t w) {symbol : Symbol}
    (new : symbol ∉ w.symbols.map (·.1)) (more : List (Label × Binding))
    (grows : ∀ l binding, (l, binding) ∈ more ↔
      l = ⟨w.stream.nextLabel⟩ ∧ t.Stands loads resumeAt skipAt symbol binding)
    (single : more.map (·.1) = if symbol.fixed then [⟨w.stream.nextLabel⟩] else []) :
    Runs loads s resumeAt skipAt t
      ⟨{ w.stream with nextLabel := w.stream.nextLabel + 1 },
        (symbol, ⟨w.stream.nextLabel⟩) :: w.symbols,
        { w.block with bindings := w.block.bindings ++ more }⟩ := by
  have next : w.stream.nextLabel = s.nextLabel + .ofNat w.symbols.length := by rw [runs.stream]
  refine ⟨?_, List.nodup_cons.mpr ⟨new, runs.once⟩, ?_, ?_, ?_, ?_, ?_⟩
  · simp only [runs.stream, List.length_cons, UInt32.ofNat_add, UInt32.add_assoc]
    rfl
  · simp only [List.map_cons, runs.labels, next, List.length_cons, Stream.upcoming_succ,
      List.reverse_append, List.reverse_singleton, List.singleton_append]
  · exact fun op member k named => List.mem_cons_of_mem _ (runs.known op member k named)
  · exact fun name agrees => runs.code name fun e member => agrees e (List.mem_cons_of_mem _ member)
  · intro l binding
    simp only [List.mem_append, grows, runs.bound, List.mem_cons, Prod.mk.injEq]
    constructor
    · rintro (⟨k, named, stands⟩ | ⟨rfl, stands⟩)
      · exact ⟨k, .inr named, stands⟩
      · exact ⟨symbol, .inl ⟨rfl, rfl⟩, stands⟩
    · rintro ⟨k, ⟨rfl, rfl⟩ | named, stands⟩
      · exact .inr ⟨rfl, stands⟩
      · exact .inl ⟨k, named, stands⟩
  · intro name agrees
    have before := runs.placed name fun e member => agrees e (List.mem_cons_of_mem _ member)
    have here : name symbol = ⟨w.stream.nextLabel⟩ := agrees _ List.mem_cons_self
    rw [List.map_append, single]
    by_cases fixed : symbol.fixed = true
    · simp only [fixed, if_true, List.map_cons, List.filter_cons_of_pos, List.cons_append, here]
      exact (List.perm_append_singleton _ _).trans (before.cons _)
    · simpa only [fixed, Bool.false_eq_true, if_false, List.append_nil, List.map_cons,
        List.filter_cons_of_neg, not_false_eq_true] using before

theorem Runs.label (runs : Runs loads s resumeAt skipAt t w) (symbol : Symbol) :
    Runs loads s resumeAt skipAt t (w.label resumeAt skipAt symbol).2 ∧
      (symbol, (w.label resumeAt skipAt symbol).1) ∈ (w.label resumeAt skipAt symbol).2.symbols := by
  cases found : w.symbols.lookup symbol with
  | some l => simpa only [Lowering.label, found] using ⟨runs, lookup_mem found⟩
  | none =>
    have new := lookup_none_iff.mp found
    simp only [Lowering.label, found, Stream.defineLabel, List.mem_cons_self, and_true]
    cases symbol with
    | resume =>
      refine runs.meet new [(_, .existing resumeAt)] (fun l binding => ?_) rfl
      simp only [List.mem_singleton, Prod.mk.injEq]
      refine and_congr_right fun _ => ⟨?_, ?_⟩
      · rintro rfl
        exact .resume
      · rintro ⟨⟩
        rfl
    | skip =>
      refine runs.meet new [(_, .existing skipAt)] (fun l binding => ?_) rfl
      simp only [List.mem_singleton, Prod.mk.injEq]
      refine and_congr_right fun _ => ⟨?_, ?_⟩
      · rintro rfl
        exact .skip
      · rintro ⟨⟩
        rfl
    | named name =>
      have result := runs.meet new [] (fun l binding => ?_) rfl
      · simpa using result
      · simp only [List.not_mem_nil, false_iff, not_and]
        rintro - (_ | _ | marked)
        exact new (runs.known _ marked.mem _ rfl)

theorem pushAll_eq (w : Lowering) (code : List Instruction) :
    w.pushAll code = { w with block := { w.block with code := w.block.code ++ code } } := by
  have pushed : ∀ b : Block, code.foldl Block.push b = { b with code := b.code ++ code } := by
    induction code with
    | nil => simp
    | cons insn code ih => simp [ih, Block.push]
  simp [pushAll, pushed]

theorem Runs.push (runs : Runs loads s resumeAt skipAt t w) {op : TemplateOp}
    (unmarked : ∀ name, op ≠ .mark name) {code : List Instruction}
    (known : ∀ symbol, op.symbol? = some symbol → symbol ∈ w.symbols.map (·.1))
    (denotes : ∀ name : Symbol → Label, (∀ e ∈ w.symbols, name e.1 = e.2) →
      code = op.code loads name) :
    Runs loads s resumeAt skipAt (t ++ [op]) (w.pushAll code) := by
  rw [pushAll_eq]
  refine ⟨runs.stream, runs.once, runs.labels, ?_, ?_, ?_, ?_⟩
  · intro other member
    rcases List.mem_append.mp member with old | new
    · exact runs.known other old
    · obtain rfl := List.mem_singleton.mp new
      exact known
  · intro name agrees
    simp only [runs.code name agrees, denotes name agrees, code_append]
    simp [Template.code]
  · intro l binding
    rw [runs.bound]
    refine exists_congr fun symbol => and_congr_right fun _ => ?_
    rw [stands_append]
    exact ⟨.inl, fun either => either.resolve_right fun ⟨name, here, _⟩ => unmarked name here⟩
  · have none : Template.marks [op] = [] := by
      cases op with
      | mark name => exact absurd rfl (unmarked name)
      | _ => rfl
    simpa only [marks_append, none, List.append_nil] using runs.placed

theorem Runs.mark (runs : Runs loads s resumeAt skipAt t w) {name : String} {l : Label}
    (known : (.named name, l) ∈ w.symbols) :
    Runs loads s resumeAt skipAt (t ++ [.mark name]) { w with block := w.block.mark l } := by
  have length : w.block.code.length = t.size loads := by
    rw [runs.code w.name fun e member => name_of_mem runs.once member, code_length]
  refine ⟨runs.stream, runs.once, runs.labels, ?_, ?_, ?_, ?_⟩
  · intro other member symbol named
    rcases List.mem_append.mp member with old | new
    · exact runs.known other old symbol named
    · obtain rfl := List.mem_singleton.mp new
      obtain rfl : Symbol.named name = symbol := Option.some.inj named
      exact List.mem_map_of_mem known
  · intro name' agrees
    simp only [Block.mark, runs.code name' agrees, code_append]
    simp [Template.code, TemplateOp.code]
  · intro k binding
    simp only [Block.mark, List.mem_append, List.mem_singleton, runs.bound, length, stands_append,
      Prod.mk.injEq, TemplateOp.mark.injEq]
    constructor
    · rintro (⟨symbol, here, stands⟩ | ⟨rfl, rfl⟩)
      · exact ⟨symbol, here, .inl stands⟩
      · exact ⟨_, known, .inr ⟨name, rfl, rfl, rfl⟩⟩
    · rintro ⟨symbol, here, stands | ⟨_, rfl, rfl, rfl⟩⟩
      · exact .inl ⟨symbol, here, stands⟩
      · have same := List.inj_on_of_nodup_map runs.once here known rfl
        exact .inr ⟨(Prod.mk.inj same).2, rfl⟩
  · intro name' agrees
    have here : name' (.named name) = l := agrees _ known
    have single : Template.marks [.mark name] = [name] := rfl
    simp only [Block.mark, marks_append, single, List.map_append, List.map_cons, List.map_nil, here,
      ← List.append_assoc]
    refine List.Perm.append_right _ ?_
    simpa only [List.map_append] using runs.placed name' agrees

theorem Runs.step (runs : Runs loads s resumeAt skipAt t w) (op : TemplateOp) :
    Runs loads s resumeAt skipAt (t ++ [op]) (Lowering.step loads resumeAt skipAt w op) := by
  have branch : ∀ {symbol : Symbol} {build : Label → Instruction} {op : TemplateOp},
      (∀ name, op ≠ .mark name) → op.symbol? = some symbol →
      (∀ name, op.code loads name = [build (name symbol)]) →
      Runs loads s resumeAt skipAt (t ++ [op])
        ((w.label resumeAt skipAt symbol).2.pushAll [build (w.label resumeAt skipAt symbol).1]) := by
    intro symbol build op unmarked target denotes
    obtain ⟨labelled, known⟩ := runs.label symbol
    refine labelled.push unmarked ?_ fun name agrees => ?_
    · intro other named
      obtain rfl : symbol = other := Option.some.inj (target.symm.trans named)
      exact List.mem_map_of_mem known
    · rw [denotes, agrees _ known]
  cases op with
  | branch symbol => exact branch (by simp) rfl fun _ => rfl
  | branchTrue symbol => exact branch (by simp) rfl fun _ => rfl
  | branchFalse symbol => exact branch (by simp) rfl fun _ => rfl
  | mark name =>
    obtain ⟨labelled, known⟩ := runs.label (.named name)
    exact labelled.mark known
  | loadActive | typeTest | loadCapture | invokeCallback | emit =>
    exact runs.push (by simp) (by simp [TemplateOp.symbol?, TemplateOp.target?]) fun _ _ => rfl

theorem Runs.all (runs : Runs loads s resumeAt skipAt t w) (rest : Template) :
    Runs loads s resumeAt skipAt (t ++ rest)
      (rest.foldl (Lowering.step loads resumeAt skipAt) w) := by
  induction rest generalizing t w with
  | nil => simpa using runs
  | cons op rest ih => simpa using ih (runs.step op)

theorem step_keys (w : Lowering) (op : TemplateOp) {symbol : Symbol}
    (known : symbol ∈ (Lowering.step loads resumeAt skipAt w op).symbols.map (·.1)) :
    symbol ∈ w.symbols.map (·.1) ∨ op.symbol? = some symbol := by
  have labelled : ∀ {other : Symbol},
      symbol ∈ (w.label resumeAt skipAt other).2.symbols.map (·.1) →
        symbol ∈ w.symbols.map (·.1) ∨ some other = some symbol := by
    intro other member
    unfold Lowering.label at member
    split at member
    · exact .inl member
    · rcases List.mem_cons.mp member with rfl | old
      · exact .inr rfl
      · exact .inl old
  cases op with
  | branch target | branchTrue target | branchFalse target =>
    refine labelled ?_
    simpa only [Lowering.step, pushAll_eq] using known
  | mark name => exact labelled known
  | loadActive | typeTest | loadCapture | invokeCallback | emit =>
    simp only [Lowering.step, pushAll_eq] at known
    exact .inl known

theorem fold_keys (rest : Template) (w : Lowering) {symbol : Symbol}
    (known : symbol ∈
      (rest.foldl (Lowering.step loads resumeAt skipAt) w).symbols.map (·.1)) :
    symbol ∈ w.symbols.map (·.1) ∨ ∃ op ∈ rest, op.symbol? = some symbol := by
  induction rest generalizing w with
  | nil => exact .inl known
  | cons op rest ih =>
    rcases ih _ known with before | ⟨other, member, named⟩
    · rcases step_keys w op before with old | named
      · exact .inl old
      · exact .inr ⟨op, List.mem_cons_self, named⟩
    · exact .inr ⟨other, List.mem_cons_of_mem _ member, named⟩

theorem runs_all (loads : Loads) (s : Stream) (resumeAt skipAt : Position) (t : Template) :
    Runs loads s resumeAt skipAt t (t.foldl (Lowering.step loads resumeAt skipAt) ⟨s, [], .empty⟩) ∧
      t.symbols.dedup.Perm
        ((t.foldl (Lowering.step loads resumeAt skipAt) ⟨s, [], .empty⟩).symbols.map (·.1)) := by
  have start : Runs loads s resumeAt skipAt [] ⟨s, [], .empty⟩ := runs_start
  have runs := start.all t
  rw [List.nil_append] at runs
  refine ⟨runs, (List.perm_ext_iff_of_nodup (List.nodup_dedup _) runs.once).mpr fun symbol => ?_⟩
  simp only [List.mem_dedup, Template.symbols, List.mem_filterMap]
  constructor
  · rintro ⟨op, member, named⟩
    exact runs.known op member symbol named
  · intro known
    rcases fold_keys t _ known with none | some
    · cases none
    · exact some

end Lowering

/-- What lowering a template for a stream gives: a block, and the stream with its next labels
defined, which are the labels of the symbols. -/
structure Lowered (loads : Loads) (s : Stream) (resumeAt skipAt : Position) (t : Template)
    (block : Block) (after : Stream) (name : Symbol → Label) : Prop where
  stream : after = { s with nextLabel := s.nextLabel + .ofNat t.symbols.dedup.length }
  labels : (t.symbols.dedup.map name).Perm (s.upcoming t.symbols.dedup.length)
  code : block.code = t.code loads name
  bound : ∀ l binding, (l, binding) ∈ block.bindings ↔
    ∃ symbol ∈ t.symbols, name symbol = l ∧ t.Stands loads resumeAt skipAt symbol binding
  placed : (block.bindings.map (·.1)).Perm (t.placed.map name)

theorem lower_lowered (loads : Loads) (s : Stream) (resumeAt skipAt : Position) (t : Template) :
    ∃ name, Lowered loads s resumeAt skipAt t (t.lower loads s resumeAt skipAt).1
      (t.lower loads s resumeAt skipAt).2 name := by
  obtain ⟨runs, once⟩ := Lowering.runs_all loads s resumeAt skipAt t
  generalize done : t.foldl (Lowering.step loads resumeAt skipAt) ⟨s, [], .empty⟩ = w
    at runs once
  simp only [lower, done]
  have agrees : ∀ e ∈ w.symbols, w.name e.1 = e.2 := fun e member =>
    Lowering.name_of_mem runs.once member
  have named : ∀ symbol l, (symbol, l) ∈ w.symbols ↔ symbol ∈ t.symbols ∧ w.name symbol = l := by
    intro symbol l
    rw [← List.mem_dedup (a := symbol), once.mem_iff]
    constructor
    · exact fun member => ⟨List.mem_map_of_mem member, agrees _ member⟩
    · rintro ⟨known, rfl⟩
      obtain ⟨⟨other, l⟩, member, rfl⟩ := List.mem_map.mp known
      rwa [agrees _ member]
  have count : w.symbols.length = t.symbols.dedup.length := by
    rw [once.length_eq, List.length_map]
  have labels : (w.symbols.map (·.1)).map w.name = w.symbols.map (·.2) := by
    rw [List.map_map]
    exact List.map_congr_left agrees
  refine ⟨w.name, count ▸ runs.stream, ?_, runs.code w.name agrees, fun l binding => ?_, ?_⟩
  · rw [← count]
    refine (once.map w.name).trans ?_
    rw [labels, runs.labels]
    exact List.reverse_perm _
  · rw [runs.bound]
    simp only [named, and_assoc]
  · exact (runs.placed w.name agrees).trans
      (((once.symm.filter _).append_right _).map w.name)

end Template

end Interpose
