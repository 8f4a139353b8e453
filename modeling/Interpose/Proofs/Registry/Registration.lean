import Interpose.Proofs.Registry.Tables

/-!
What a registration leaves behind. A patch is registered whole or not at all: its points go behind
those of the method, each with its own callback, and nothing else changes. So whatever is done to a
registry, from outside or by the host while a method is on its way, the callbacks in the dispatch
table are always those of the registered points, with no name and no method twice.
-/

set_option autoImplicit false
set_option relaxedAutoImplicit false

namespace Interpose

namespace Registry

variable {r after : Registry} {m : MethodId} {name : String} {points : List (Point × Callback)}

def names (r : Registry) : List String := r.slots.flatMap fun slot => slot.points.map (·.name)

/-- The callbacks are those of the points, each does what its point expects, and no name and no
method is there twice. -/
structure Consistent (r : Registry) : Prop where
  methods : r.methods.Nodup
  names : r.names.Nodup
  keys : (r.dispatcher.callbacks.map (·.1)).Perm r.names
  modes : ∀ slot ∈ r.slots, ∀ point ∈ slot.points, ∃ callback,
    r.dispatcher.find? point.name = some callback ∧ callback.mode = point.mode

/-- Points may be registered for a method: every callback does what its point expects, the names are
new, with no two the same, and the method, if it is known, is unpatched. -/
structure Registrable (r : Registry) (m : MethodId) (points : List (Point × Callback)) : Prop where
  modes : ∀ e ∈ points, e.2.mode = e.1.mode
  names : (r.names ++ points.map (·.1.name)).Nodup
  unpatched : ∀ slot, r.find? m = some slot → slot.state = .unpatched

/-- A registry after points were registered for a method: they stand behind those that the method
had, each with its own callback, the method has one place in the order, and all else is as it was. -/
structure Registered (r : Registry) (m : MethodId) (points : List (Point × Callback))
    (after : Registry) : Prop where
  callbacks : after.dispatcher.callbacks =
    r.dispatcher.callbacks ++ points.map fun e => (e.1.name, e.2)
  found : ∀ e ∈ points, after.dispatcher.find? e.1.name = some e.2
  slot : ∃ slot, after.find? m = some slot ∧ slot.state = .unpatched ∧
    slot.points = r.pointsOf m ++ points.map (·.1) ∧
    ∀ old, r.find? m = some old → old.state = .unpatched ∧ slot = { old with points := slot.points }
  elsewhere : ∀ k, k ≠ m → after.find? k = r.find? k
  order : after.methods = if m ∈ r.methods then r.methods else r.methods ++ [m]
  once : after.methods.count m = 1

/-! ### One registration -/

section Enrolled

variable {d table : Dispatcher}

theorem found_enrolled (enrolled : enroll d points = .ok table)
    (distinct : (d.callbacks.map (·.1)).Nodup) {e : Point × Callback} (member : e ∈ points) :
    table.find? e.1.name = some e.2 := by
  obtain ⟨whole, -, once⟩ := enroll_ok enrolled
  refine Dispatcher.find_of_mem (once distinct) ?_
  rw [whole]
  exact List.mem_append_right _ (List.mem_map_of_mem (f := fun e => (e.1.name, e.2)) member)

theorem found_before_enrolled (enrolled : enroll d points = .ok table)
    (distinct : (d.callbacks.map (·.1)).Nodup) {point : String} {callback : Callback}
    (found : d.find? point = some callback) : table.find? point = some callback := by
  obtain ⟨whole, -, once⟩ := enroll_ok enrolled
  refine Dispatcher.find_of_mem (once distinct) ?_
  rw [whole]
  exact List.mem_append_left _ (Dispatcher.mem_of_find found)

theorem enroll_iff (distinct : (d.callbacks.map (·.1)).Nodup) :
    (∃ table, enroll d points = .ok table) ↔ (∀ e ∈ points, e.2.mode = e.1.mode) ∧
      (d.callbacks.map (·.1) ++ points.map (·.1.name)).Nodup := by
  constructor
  · rintro ⟨table, enrolled⟩
    obtain ⟨whole, modes, once⟩ := enroll_ok enrolled
    have later := once distinct
    rw [whole, List.map_append, List.map_map] at later
    exact ⟨modes, later⟩
  · clear distinct
    rintro ⟨modes, names⟩
    induction points generalizing d with
    | nil => exact ⟨d, rfl⟩
    | cons e points ih =>
      obtain ⟨point, callback⟩ := e
      obtain ⟨mode, modes⟩ := List.forall_mem_cons.mp modes
      rw [List.map_cons, List.append_cons] at names
      have absent : ¬ d.contains point.name = true := fun taken =>
        (List.nodup_append'.mp (List.nodup_append'.mp names).1).2.2
          (Dispatcher.contains_iff.mp taken) List.mem_cons_self
      have entered : d.register point.name callback =
          .ok ⟨d.callbacks ++ [(point.name, callback)]⟩ := if_neg absent
      obtain ⟨table, enrolled⟩ := ih (d := ⟨d.callbacks ++ [(point.name, callback)]⟩) modes
        (by rwa [List.map_append, List.map_singleton])
      refine ⟨table, ?_⟩
      rw [enroll, if_neg (not_not.mpr mode), entered]
      exact enrolled

end Enrolled

theorem add_cases (added : r.add m name points = .ok after) :
    enroll r.dispatcher points = .ok after.dispatcher ∧
      (r.find? m = none ∧ after.slots = r.slots ++ [⟨m, name, points.map (·.1), .unpatched, 0⟩] ∨
        ∃ slot, r.find? m = some slot ∧ slot.state = .unpatched ∧
          after.slots = Tables.pushPoints m (points.map (·.1)) r.slots) := by
  unfold add at added
  split at added
  · cases added
  next table enrolled =>
  split at added
  · next new =>
    cases added
    exact ⟨enrolled, .inl ⟨new, rfl⟩⟩
  · next slot found =>
    split at added
    · next unpatched =>
      cases added
      exact ⟨enrolled, .inr ⟨slot, found, unpatched, rfl⟩⟩
    · cases added

theorem names_push {slots : List Slot} (distinct : (slots.map (·.method)).Nodup)
    (known : m ∈ slots.map (·.method)) (added : List Point) :
    ((Tables.pushPoints m added slots).flatMap fun slot => slot.points.map (·.name)).Perm
      ((slots.flatMap fun slot => slot.points.map (·.name)) ++ added.map (·.name)) := by
  induction slots with
  | nil => cases known
  | cons slot slots ih =>
    obtain ⟨apart, distinct⟩ := List.nodup_cons.mp distinct
    rw [Tables.pushPoints, List.map_cons, ← Tables.pushPoints, List.flatMap_cons, List.flatMap_cons,
      List.append_assoc]
    by_cases here : slot.method = m
    · have others : ∀ other ∈ slots, other.method ≠ m := by
        rintro other member rfl
        exact apart (List.mem_map.mpr ⟨other, member, here.symm⟩)
      rw [if_pos here, Tables.push_absent others, List.map_append, List.append_assoc]
      exact List.perm_append_comm.append_left _
    · have there : m ∈ slots.map (·.method) :=
        (List.mem_cons.mp known).resolve_left (Ne.symm here)
      rw [if_neg here]
      exact (ih distinct there).append_left _

theorem names_add (distinct : r.methods.Nodup) (added : r.add m name points = .ok after) :
    after.names.Perm (r.names ++ points.map (·.1.name)) := by
  obtain ⟨-, ⟨-, slots⟩ | ⟨slot, found, -, slots⟩⟩ := add_cases added
  · rw [names, slots, List.flatMap_append]
    simp [names, Function.comp_def]
  · rw [names, slots]
    have more := names_push distinct (mem_methods_iff.mpr ⟨slot, found⟩) (points.map (·.1))
    rwa [List.map_map] at more

namespace Consistent

theorem empty (strict : Bool) : (Registry.empty strict).Consistent :=
  ⟨.nil, .nil, .nil, by simp [Registry.empty]⟩

theorem modify {f : Slot → Slot} (consistent : r.Consistent)
    (keeps : ∀ slot, (f slot).method = slot.method ∧ (f slot).points = slot.points) :
    (r.modify m f).Consistent := by
  have same : (r.modify m f).names = r.names := by
    rw [Registry.names, Registry.names, Registry.modify, List.flatMap_map]
    refine List.flatMap_congr fun slot _ => ?_
    split
    · rw [(keeps slot).2]
    · rfl
  refine ⟨?_, same ▸ consistent.names, same ▸ consistent.keys, fun slot member point here => ?_⟩
  · rw [methods_modify r m fun slot => (keeps slot).1]
    exact consistent.methods
  · obtain ⟨old, known, rfl⟩ := List.mem_map.mp member
    refine consistent.modes old known point ?_
    split at here
    · rwa [← (keeps old).2]
    · exact here

theorem keys_nodup (consistent : r.Consistent) : (r.dispatcher.callbacks.map (·.1)).Nodup :=
  consistent.keys.nodup_iff.mpr consistent.names

theorem add (consistent : r.Consistent) (added : r.add m name points = .ok after) :
    after.Consistent := by
  obtain ⟨enrolled, slots⟩ := add_cases added
  obtain ⟨whole, expected, once⟩ := enroll_ok enrolled
  have distinct := consistent.keys_nodup
  have keys : (after.dispatcher.callbacks.map (·.1)).Perm after.names := by
    rw [whole, List.map_append, List.map_map]
    exact (consistent.keys.append_right _).trans (names_add consistent.methods added).symm
  have old : ∀ slot ∈ r.slots, ∀ point ∈ slot.points, ∃ callback,
      after.dispatcher.find? point.name = some callback ∧ callback.mode = point.mode := by
    intro slot member point here
    obtain ⟨callback, found, mode⟩ := consistent.modes slot member point here
    exact ⟨callback, found_before_enrolled enrolled distinct found, mode⟩
  have new : ∀ point ∈ points.map (·.1), ∃ callback,
      after.dispatcher.find? point.name = some callback ∧ callback.mode = point.mode := by
    intro point member
    obtain ⟨e, given, rfl⟩ := List.mem_map.mp member
    exact ⟨e.2, found_enrolled enrolled distinct given, expected e given⟩
  refine ⟨nodup_add added consistent.methods, keys.nodup_iff.mp (once distinct), keys, ?_⟩
  rcases slots with ⟨-, slots⟩ | ⟨-, -, -, slots⟩
  · rw [slots]
    intro slot member point here
    rcases List.mem_append.mp member with member | member
    · exact old slot member point here
    · obtain rfl := List.mem_singleton.mp member
      exact new point here
  · rw [slots]
    intro _ member point here
    obtain ⟨slot, known, rfl⟩ := List.mem_map.mp member
    split at here
    · rcases List.mem_append.mp here with here | here
      · exact old slot known point here
      · exact new point here
    · exact old slot known point here

end Consistent

theorem add_slot (added : r.add m name points = .ok after) :
    ∃ slot, after.find? m = some slot ∧ slot.state = .unpatched ∧
      slot.points = r.pointsOf m ++ points.map (·.1) ∧ ∀ old, r.find? m = some old →
        old.state = .unpatched ∧ slot = { old with points := slot.points } := by
  obtain ⟨-, ⟨new, slots⟩ | ⟨slot, found, unpatched, slots⟩⟩ := add_cases added
  · refine ⟨⟨m, name, points.map (·.1), .unpatched, 0⟩, ?_, rfl, ?_, by simp [new]⟩
    · rw [find?] at new ⊢
      simp [slots, List.find?_append, new]
    · rw [pointsOf, new]
      rfl
  · have changed := find_modify r m m
      (f := fun s => { s with points := s.points ++ points.map (·.1) }) fun _ => rfl
    rw [if_pos rfl, found] at changed
    refine ⟨{ slot with points := slot.points ++ points.map (·.1) }, ?_, unpatched, ?_,
      fun old here => ?_⟩
    · rw [find?, slots]
      exact changed
    · rw [pointsOf_find found]
    · obtain rfl := Option.some.inj (found.symm.trans here)
      exact ⟨unpatched, rfl⟩

theorem methods_add (added : r.add m name points = .ok after) :
    after.methods = if m ∈ r.methods then r.methods else r.methods ++ [m] := by
  obtain ⟨-, ⟨new, slots⟩ | ⟨slot, found, -, slots⟩⟩ := add_cases added
  · have absent : m ∉ r.methods := fun member => by
      obtain ⟨slot, known⟩ := mem_methods_iff.mp member
      cases new.symm.trans known
    rw [if_neg absent, methods, methods, slots, List.map_append, List.map_singleton]
  · rw [if_pos (mem_methods_iff.mpr ⟨slot, found⟩), methods, slots]
    exact methods_modify r m (f := fun s => { s with points := s.points ++ points.map (·.1) })
      fun _ => rfl

theorem Consistent.registered (consistent : r.Consistent)
    (added : r.add m name points = .ok after) : r.Registered m points after where
  callbacks := (enroll_ok (add_cases added).1).1
  found e member := found_enrolled (add_cases added).1 consistent.keys_nodup member
  slot := add_slot added
  elsewhere k other := (find_add added k).resolve_right fun here => other here.1
  order := methods_add added
  once := by
    obtain ⟨slot, found, -⟩ := add_slot added
    exact List.count_eq_one_of_mem (nodup_add added consistent.methods)
      (mem_methods_iff.mpr ⟨slot, found⟩)

theorem Consistent.add_iff (consistent : r.Consistent) (name : String) :
    (∃ after, r.add m name points = .ok after) ↔ r.Registrable m points := by
  have names : (r.dispatcher.callbacks.map (·.1) ++ points.map (·.1.name)).Nodup ↔
      (r.names ++ points.map (·.1.name)).Nodup :=
    (consistent.keys.append_right _).nodup_iff
  have possible : (∃ table, enroll r.dispatcher points = .ok table) ↔ _ :=
    enroll_iff consistent.keys_nodup
  constructor
  · rintro ⟨after, added⟩
    obtain ⟨modes, distinct⟩ := possible.mp ⟨_, (add_cases added).1⟩
    obtain ⟨_, -, -, -, before⟩ := add_slot added
    exact ⟨modes, names.mp distinct, fun slot found => (before slot found).1⟩
  · rintro ⟨modes, distinct, unpatched⟩
    obtain ⟨table, enrolled⟩ := possible.mpr ⟨modes, names.mpr distinct⟩
    unfold Registry.add
    rw [enrolled]
    cases found : r.find? m with
    | none => exact ⟨_, rfl⟩
    | some slot =>
      dsimp only
      rw [unpatched slot found]
      exact ⟨_, rfl⟩

theorem Evolves.consistent {s : Registry} {es : List Enrollment} (evolves : Evolves r es s)
    (consistent : r.Consistent) : s.Consistent := by
  induction evolves with
  | rest r => exact consistent
  | add _ added ih => exact (ih consistent).add added
  | patch state _ _ _ _ _ before within =>
    exact (within ((before consistent).modify fun _ => ⟨rfl, rfl⟩)).modify fun _ => ⟨rfl, rfl⟩
  | restore state _ _ _ _ _ before within =>
    exact (within ((before consistent).modify fun _ => ⟨rfl, rfl⟩)).modify fun _ => ⟨rfl, rfl⟩

end Registry

/-! ### Runs -/

namespace World

variable {σ : Type} {strict : Bool} {w : World σ}

/-- The worlds that come up in runs of a registry, between calls and within them. A call is served by
a host that does to the registry what calls of it can do. When a method is on its way the host is
asked for its body or told to run one; then more calls may be made, and it may change. -/
inductive Arises (strict : Bool) : World σ → Prop
  | new (start : σ) : Arises strict ⟨start, .empty strict, []⟩
  | call {w : World σ} {host : Host σ} (operates : host.Operates) (c : Call) :
      Arises strict w → Arises strict (c.performOn host w)
  | patching {w : World σ} {m : MethodId} {slot : Slot} : Arises strict w →
      w.registry.find? m = some slot → slot.state = .unpatched →
      Arises strict (w.withRegistry (w.registry.startInstall m))
  | loaded {w : World σ} {host : Host σ} (operates : host.Operates) (m : MethodId) :
      Arises strict w → Arises strict (host.loadBody w m).2
  | restoring {w : World σ} {m : MethodId} {slot : Slot} {handle : Handle} : Arises strict w →
      w.registry.find? m = some slot → slot.state = .installed handle →
      Arises strict (w.setState m (.uninstalling handle))
  | other {w : World σ} (host : σ) (log : List LogLine) : Arises strict w →
      Arises strict { w with host, log }

theorem Arises.consistent (arises : Arises strict w) : w.registry.Consistent := by
  induction arises with
  | new start => exact .empty strict
  | call operates c _ ih =>
    obtain ⟨es, enrolls⟩ := c.enrolls operates _
    exact enrolls.evolves.consistent ih
  | patching _ _ _ ih | restoring _ _ _ ih => exact ih.modify fun _ => ⟨rfl, rfl⟩
  | loaded operates m _ ih =>
    obtain ⟨es, evolves⟩ := operates.load _ m
    exact evolves.consistent ih
  | other host log _ ih => exact ih

/-! ### Every registration -/

theorem register_ok_iff {host : Host σ} {patch : MethodPatch} {m : MethodId} :
    (w.register host patch).1 = .ok m ↔ host.resolve w.host patch.target = .ok m ∧
      ∃ after, w.registry.add m (host.describe w.host m) patch.points = .ok after := by
  cases resolved : host.resolve w.host patch.target with
  | error e => simp [register, resolved]
  | ok k =>
    cases added : w.registry.add k (host.describe w.host k) patch.points with
    | error e =>
      simp only [register, resolved, added, reduceCtorEq, Except.ok.injEq, false_iff, not_and]
      rintro rfl ⟨after, granted⟩
      cases added.symm.trans granted
    | ok after =>
      simp only [register, resolved, added, Except.ok.injEq]
      exact ⟨fun same => ⟨same, same ▸ ⟨after, added⟩⟩, And.left⟩

theorem register_refused {host : Host σ} {patch : MethodPatch} {e : PatchError}
    (refused : (w.register host patch).1 = .error e) : (w.register host patch).2 = w := by
  cases resolved : host.resolve w.host patch.target with
  | error _ => simp only [register, resolved]
  | ok m =>
    cases added : w.registry.add m (host.describe w.host m) patch.points with
    | error _ => simp only [register, resolved, added]
    | ok after => simp [register, resolved, added] at refused

/-- A registration is granted if the points may be registered for the method that the host finds. It
adds the points to that method and changes nothing else, and a refused one changes nothing at all.
That is so although the tables are changed one by one, and point by point. In every world that comes
up the callbacks in the dispatch table are those of the registered points, and no name is there
twice. -/
theorem registration_atomic (arises : Arises strict w) (host : Host σ) (patch : MethodPatch) :
    w.registry.Consistent ∧
    (∀ m, host.resolve w.host patch.target = .ok m →
      w.registry.tables.register m (host.describe w.host m) patch.points =
        ((w.register host patch).1.map fun _ => (), (w.register host patch).2.registry.tables)) ∧
    (∀ e, (w.register host patch).1 = .error e → (w.register host patch).2 = w) ∧
    (∀ m, (w.register host patch).1 = .ok m →
      w.registry.Registered m patch.points (w.register host patch).2.registry) ∧
    ∀ m, (w.register host patch).1 = .ok m ↔
      host.resolve w.host patch.target = .ok m ∧ w.registry.Registrable m patch.points := by
  have consistent := arises.consistent
  refine ⟨consistent, fun m resolved => ?_, fun e => register_refused, fun m granted => ?_,
    fun m => ?_⟩
  · rw [Registry.tables_register]
    cases added : w.registry.add m (host.describe w.host m) patch.points <;>
      simp only [register, resolved, added] <;> rfl
  · obtain ⟨resolved, after, added⟩ := register_ok_iff.mp granted
    simp only [register, resolved, added]
    exact consistent.registered added
  · rw [register_ok_iff, consistent.add_iff]

/-- A guarded method gets a second guard, but not together with its first one. -/
theorem second_guard_atomic : ∃ (w : World Memory) (p q : Point), Arises true w ∧
    w.registry.pointsOf ⟨1⟩ = [p] ∧
    (∃ e, w.register .memory ⟨"guarded", [(q, .consume fun _ => true), (p, .consume fun _ => true)]⟩ =
      (.error e, w)) ∧
    ∃ after, w.register .memory ⟨"guarded", [(q, .consume fun _ => true)]⟩ = (.ok ⟨1⟩, after) ∧
      after.registry.pointsOf ⟨1⟩ = [p, q] ∧ after.registry.methods = [⟨1⟩] := by
  obtain ⟨p, builtP⟩ : ∃ p, guardPoint.build = .ok p := ⟨_, rfl⟩
  obtain ⟨q, builtQ⟩ : ∃ q, { guardPoint with name := "second" }.build = .ok q := ⟨_, rfl⟩
  have arises : Arises true _ := .call Memory.atomic.keepsRegistry.operates
    (.register ⟨"guarded", [(p, .consume fun _ => true)]⟩) (.new guardedHost)
  obtain ⟨-, -, refused, -, -⟩ := registration_atomic arises .memory
    ⟨"guarded", [(q, .consume fun _ => true), (p, .consume fun _ => true)]⟩
  obtain ⟨-, -, -, granted, -⟩ := registration_atomic arises .memory
    ⟨"guarded", [(q, .consume fun _ => true)]⟩
  have registered := granted ⟨1⟩ (by cases builtP; cases builtQ; rfl)
  obtain ⟨slot, found, -, points, -⟩ := registered.slot
  refine ⟨_, p, q, arises, by cases builtP; rfl, ⟨.duplicatePoint p.name, Prod.ext ?_ ?_⟩, _,
    Prod.ext ?_ rfl, ?_, ?_⟩
  · cases builtP
    cases builtQ
    rfl
  · refine refused (.duplicatePoint p.name) ?_
    cases builtP
    cases builtQ
    rfl
  · cases builtP
    cases builtQ
    rfl
  · rw [Registry.pointsOf_find found, points]
    cases builtP
    rfl
  · rw [registered.order]
    cases builtP
    rfl

end World

end Interpose
