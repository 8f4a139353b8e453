import Interpose.Proofs.Dispatch.Enrolled
import Interpose.Registry.Tables

/-!
Registration through the tables. The checks that come first see all that could stop the rest, so
that nothing is entered that does not stay. A registration therefore takes the tables of a registry
to those of the next one, or it is refused and they are as they were.
-/

set_option autoImplicit false
set_option relaxedAutoImplicit false

namespace Interpose

namespace Tables

variable {t : Tables} {d table : Dispatcher} {m : MethodId} {seen : List String}
  {points : List (Point × Callback)}

/-- Checking the points is as good as entering their callbacks: the names of the earlier ones are
those that are in the way. -/
theorem accept_eq_enroll
    (known : ∀ name, table.contains name = true ↔ name ∈ seen ∨ d.contains name = true) :
    accept d seen points = (Registry.enroll table points).map fun _ => () := by
  -- `table` is `d` with the points entered whose names have been seen
  induction points generalizing seen table with
  | nil => rfl
  | cons e points ih =>
    obtain ⟨point, callback⟩ := e
    simp only [accept, Registry.enroll]
    split
    · rfl
    by_cases taken : table.contains point.name = true
    · have refused : table.register point.name callback = .error (.duplicate point.name) :=
        if_pos taken
      rw [if_pos ((known _).mp taken), refused]
      rfl
    · have entered : table.register point.name callback =
          .ok ⟨table.callbacks ++ [(point.name, callback)]⟩ := if_neg taken
      rw [if_neg (taken ∘ (known _).mpr), entered]
      refine ih fun name => ?_
      simp only [Dispatcher.contains_iff, List.map_append, List.mem_append] at known ⊢
      simp only [known, List.map_cons, List.map_nil, List.mem_cons]
      tauto

theorem push_nothing (m : MethodId) (slots : List Slot) : pushPoints m [] slots = slots := by
  simp [pushPoints]

theorem push_absent {slots : List Slot} (others : ∀ slot ∈ slots, slot.method ≠ m)
    (added : List Point) : pushPoints m added slots = slots :=
  (List.map_congr_left fun slot member => if_neg (others slot member)).trans (List.map_id _)

theorem push_append (m : MethodId) (first second : List Point) (slots : List Slot) :
    pushPoints m second (pushPoints m first slots) = pushPoints m (first ++ second) slots := by
  rw [pushPoints, pushPoints, pushPoints, List.map_map]
  refine List.map_congr_left fun slot _ => ?_
  by_cases same : slot.method = m
  · simp [same]
  · simp [same]

theorem enter_enrolled (enrolled : Registry.enroll t.dispatcher points = .ok table) :
    t.enter m points = (.ok (), ⟨table, pushPoints m (points.map (·.1)) t.slots, t.order⟩) := by
  induction points generalizing t with
  | nil =>
    obtain rfl := Except.ok.inj enrolled
    rw [List.map_nil, push_nothing]
    rfl
  | cons e points ih =>
    obtain ⟨point, callback⟩ := e
    unfold Registry.enroll at enrolled
    split at enrolled
    · cases enrolled
    split at enrolled
    · cases enrolled
    next entered =>
    rw [enter, entered]
    dsimp only
    rw [ih enrolled, push_append]
    rfl

theorem enlist_new (new : m ∉ t.order) : t.enlist m = { t with order := t.order ++ [m] } :=
  if_neg new

theorem enlist_known (known : m ∈ t.order) : t.enlist m = t := if_pos known

theorem register_opened {slot : Slot} {opened : Tables} {name : String}
    (accepted : accept t.dispatcher [] points = .ok ()) (slots : t.openSlot m name = (slot, opened))
    (enrolled : Registry.enroll opened.dispatcher points = .ok table) :
    t.register m name points =
      if slot.state = .unpatched then
        (.ok (), enlist ⟨table, pushPoints m (points.map (·.1)) opened.slots, opened.order⟩ m)
      else (.error (.methodPatched slot.name), opened) := by
  simp only [register, accepted, slots, enter_enrolled enrolled, ne_eq, ite_not]

end Tables

namespace Registry

variable {r : Registry} {m : MethodId}

theorem mem_methods_iff : m ∈ r.methods ↔ ∃ slot, r.find? m = some slot := by
  constructor
  · exact World.find_of_mem
  · rintro ⟨slot, found⟩
    have named := List.find?_some found
    exact List.mem_map.mpr ⟨slot, List.mem_of_find?_eq_some found, by simpa using named⟩

theorem open_known {slot : Slot} (found : r.find? m = some slot) (name : String) :
    r.tables.openSlot m name = (slot, r.tables) := by
  unfold find? at found
  simp only [Tables.openSlot, tables, found]

theorem open_new (absent : r.find? m = none) (name : String) :
    r.tables.openSlot m name = (⟨m, name, [], .unpatched, 0⟩,
      { r.tables with slots := r.slots ++ [⟨m, name, [], .unpatched, 0⟩] }) := by
  unfold find? at absent
  simp only [Tables.openSlot, tables, absent]

theorem push_new (absent : r.find? m = none) (name : String) (added : List Point) :
    Tables.pushPoints m added (r.slots ++ [⟨m, name, [], .unpatched, 0⟩]) =
      r.slots ++ [⟨m, name, added, .unpatched, 0⟩] := by
  have others : ∀ slot ∈ r.slots, slot.method ≠ m := fun slot member => by
    simpa using List.find?_eq_none.mp absent slot member
  rw [Tables.pushPoints, List.map_append, ← Tables.pushPoints, Tables.push_absent others,
    List.map_singleton, if_pos rfl, List.nil_append]

/-- Point by point the tables come to where the registry as a whole does. -/
theorem tables_register (r : Registry) (m : MethodId) (name : String)
    (points : List (Point × Callback)) :
    r.tables.register m name points =
      match r.add m name points with
      | .ok after => (.ok (), after.tables)
      | .error e => (.error e, r.tables) := by
  have accepted : Tables.accept r.tables.dispatcher [] points =
      (enroll r.dispatcher points).map fun _ => () :=
    Tables.accept_eq_enroll fun _ => by simp [tables]
  cases enrolled : enroll r.dispatcher points with
  | error e =>
    rw [enrolled] at accepted
    simp only [Tables.register, accepted, Except.map, add, enrolled]
  | ok table =>
    rw [enrolled] at accepted
    cases found : r.find? m with
    | none =>
      have new : m ∉ r.methods := fun member => by
        obtain ⟨slot, known⟩ := mem_methods_iff.mp member
        cases found.symm.trans known
      rw [Tables.register_opened accepted (open_new found name) enrolled, if_pos rfl,
        push_new found, Tables.enlist_new (by exact new)]
      simp only [add, enrolled, found, tables]
      rw [methods, methods, List.map_append, List.map_singleton]
    | some slot =>
      have known : m ∈ r.methods := mem_methods_iff.mpr ⟨slot, found⟩
      rw [Tables.register_opened accepted (open_known found name) enrolled]
      cases state : slot.state with
      | unpatched =>
        have same := r.methods_modify m
          (f := fun s => { s with points := s.points ++ points.map (·.1) }) fun _ => rfl
        rw [if_pos rfl, Tables.enlist_known (by exact known)]
        simp only [add, enrolled, found, state]
        exact congrArg (fun order => (_, Tables.mk _ _ order)) same.symm
      | installing | installed handle | uninstalling handle =>
        simp only [add, enrolled, found, state, reduceCtorEq, if_false]

end Registry

end Interpose
