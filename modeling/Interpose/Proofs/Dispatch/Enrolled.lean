import Interpose.Proofs.Registry.Assembled

/-!
What has been registered. The calls of a registry are followed together with a record of the points
that were accepted, each with its method and its callback. In the order of the record the dispatch
table holds the callbacks, no two of them for one name, and each method has the points that were
registered for it.
-/

set_option autoImplicit false
set_option relaxedAutoImplicit false

namespace Interpose

/-! ### The dispatch table -/

namespace Dispatcher

variable {d after : Dispatcher}

theorem contains_iff {point : String} :
    d.contains point = true ↔ point ∈ d.callbacks.map (·.1) := by
  rw [contains, find?, Option.isSome_iff_ne_none, ne_eq, List.lookup_eq_none_iff]
  constructor
  · intro present
    by_contra absent
    exact present fun e member => by
      simpa using fun same : point = e.1 => absent (same ▸ List.mem_map_of_mem member)
  · intro member none
    obtain ⟨e, known, rfl⟩ := List.mem_map.mp member
    simpa using none e known

theorem register_ok {point : String} {callback : Callback}
    (accepted : d.register point callback = .ok after) :
    point ∉ d.callbacks.map (·.1) ∧ after.callbacks = d.callbacks ++ [(point, callback)] := by
  unfold register at accepted
  split at accepted
  · cases accepted
  · next absent =>
    cases accepted
    exact ⟨fun member => absent (contains_iff.mpr member), rfl⟩

theorem mem_of_find {point : String} {callback : Callback} (found : d.find? point = some callback) :
    (point, callback) ∈ d.callbacks := by
  obtain ⟨front, back, parts, -⟩ := List.lookup_eq_some_iff.mp found
  rw [parts]
  exact List.mem_append_right _ List.mem_cons_self

theorem find_of_mem {point : String} {callback : Callback}
    (once : (d.callbacks.map (·.1)).Nodup) (member : (point, callback) ∈ d.callbacks) :
    d.find? point = some callback := by
  obtain ⟨front, back, parts⟩ := List.append_of_mem member
  rw [parts, List.map_append, List.map_cons] at once
  refine List.lookup_eq_some_iff.mpr ⟨front, back, parts, fun e early => ?_⟩
  have other : e.1 ≠ point := fun same =>
    (List.nodup_append'.mp once).2.2 (List.mem_map_of_mem early) (same ▸ List.mem_cons_self)
  simpa using other.symm

end Dispatcher

namespace Registry

variable {r after : Registry} {m : MethodId}

/-- The points of a method; a method that is not known has none. -/
def pointsOf (r : Registry) (m : MethodId) : List Point := (r.find? m).elim [] (·.points)

theorem pointsOf_find {slot : Slot} (found : r.find? m = some slot) :
    r.pointsOf m = slot.points := by
  rw [pointsOf, found, Option.elim_some]

theorem enroll_ok {points : List (Point × Callback)} {d table : Dispatcher}
    (accepted : enroll d points = .ok table) :
    table.callbacks = d.callbacks ++ points.map (fun e => (e.1.name, e.2)) ∧
      (∀ e ∈ points, e.2.mode = e.1.mode) ∧
      ((d.callbacks.map (·.1)).Nodup → (table.callbacks.map (·.1)).Nodup) := by
  induction points generalizing d with
  | nil =>
    cases accepted
    simp
  | cons e points ih =>
    obtain ⟨point, callback⟩ := e
    unfold enroll at accepted
    split at accepted
    · cases accepted
    next mode =>
    split at accepted
    · cases accepted
    next more registered =>
    obtain ⟨new, one⟩ := Dispatcher.register_ok registered
    obtain ⟨whole, modes, once⟩ := ih accepted
    refine ⟨by simp [whole, one], ?_, fun distinct => once ?_⟩
    · simpa using ⟨by simpa using mode, fun p c member => modes (p, c) member⟩
    · rw [one, List.map_append]
      exact List.Nodup.append distinct (List.nodup_singleton _) (by simpa using new)

theorem add_ok {name : String} {points : List (Point × Callback)}
    (added : r.add m name points = .ok after) :
    enroll r.dispatcher points = .ok after.dispatcher ∧
      ∀ k, after.pointsOf k = r.pointsOf k ++ if k = m then points.map (·.1) else [] := by
  unfold add at added
  split at added
  · cases added
  next table enrolled =>
  split at added
  · next new =>
    cases added
    refine ⟨enrolled, fun k => ?_⟩
    simp only [find?] at new
    by_cases same : k = m
    · subst same
      simp [pointsOf, find?, List.find?_append, new]
    · have other : m ≠ k := fun equal => same equal.symm
      simp [pointsOf, find?, List.find?_append, same, other]
  · next slot found =>
    split at added
    · cases added
      refine ⟨enrolled, fun k => ?_⟩
      have changed := find_modify r m k
        (f := fun s => { s with points := s.points ++ points.map (·.1) }) fun _ => rfl
      by_cases same : k = m
      · subst same
        rw [if_pos rfl, found] at changed
        rw [pointsOf_find found, if_pos rfl]
        exact pointsOf_find changed
      · rw [if_neg same] at changed
        rw [if_neg same, List.append_nil, pointsOf, pointsOf, ← changed]
        rfl
    · cases added

/-- What is registered stands in the dispatch table and with the methods. -/
structure Holds (r : Registry) (es : List Enrollment) : Prop where
  callbacks : r.dispatcher.callbacks = es.map fun e => (e.point.name, e.callback)
  names : (es.map (·.point.name)).Nodup
  modes : ∀ e ∈ es, e.callback.mode = e.point.mode
  points : ∀ m, r.pointsOf m = (es.filter (·.method = m)).map (·.point)

namespace Holds

variable {es : List Enrollment}

theorem empty (strict : Bool) : (Registry.empty strict).Holds [] :=
  ⟨rfl, .nil, by simp, fun _ => rfl⟩

theorem modify {f : Slot → Slot} (holds : r.Holds es)
    (keeps : ∀ slot, (f slot).method = slot.method ∧ (f slot).points = slot.points) :
    (r.modify m f).Holds es := by
  refine ⟨holds.callbacks, holds.names, holds.modes, fun k => ?_⟩
  rw [← holds.points k, pointsOf, pointsOf, find_modify r m k fun slot => (keeps slot).1]
  split
  · cases r.find? k with
    | none => rfl
    | some slot => exact (keeps slot).2
  · rfl

theorem add {name : String} {points : List (Point × Callback)} (holds : r.Holds es)
    (added : r.add m name points = .ok after) :
    after.Holds (es ++ enrollments m points) := by
  obtain ⟨enrolled, more⟩ := add_ok added
  obtain ⟨whole, modes, once⟩ := enroll_ok enrolled
  refine ⟨?_, ?_, fun e member => ?_, fun k => ?_⟩
  · rw [whole, holds.callbacks, List.map_append, enrollments, List.map_map]
    rfl
  · have distinct : (r.dispatcher.callbacks.map (·.1)).Nodup := by
      simpa [holds.callbacks, Function.comp_def] using holds.names
    simpa [whole, holds.callbacks, enrollments, Function.comp_def] using once distinct
  · rcases List.mem_append.mp member with old | new
    · exact holds.modes e old
    · obtain ⟨e, here, rfl⟩ := List.mem_map.mp new
      exact modes e here
  · rw [more k, holds.points k, List.filter_append, List.map_append]
    congr 1
    by_cases here : k = m
    · simp [here, enrollments, List.filter_map, Function.comp_def]
    · simp [here, Ne.symm here, enrollments, List.filter_map, Function.comp_def]

theorem find (holds : r.Holds es) {e : Enrollment} (member : e ∈ es) :
    r.dispatcher.find? e.point.name = some e.callback := by
  refine Dispatcher.find_of_mem ?_ ?_
  · simpa [holds.callbacks, Function.comp_def] using holds.names
  · rw [holds.callbacks]
    exact List.mem_map_of_mem (f := fun e => (e.point.name, e.callback)) member

end Holds

theorem Evolves.holds {t : Registry} {es new : List Enrollment} (evolves : Evolves r new t)
    (holds : r.Holds es) : t.Holds (es ++ new) := by
  induction evolves generalizing es with
  | rest r => rwa [List.append_nil]
  | add _ added ih =>
    rw [← List.append_assoc]
    exact (ih holds).add added
  | @patch r s t _ _ m slot state _ found _ inner _ before within =>
    rw [← List.append_assoc]
    have start : (s.startInstall m).Holds (es ++ _) := (before holds).modify fun _ => ⟨rfl, rfl⟩
    exact (within start).modify fun _ => ⟨rfl, rfl⟩
  | @restore r s t _ _ m slot handle state _ found _ inner _ before within =>
    rw [← List.append_assoc]
    have start : (s.setState m (.uninstalling handle)).Holds (es ++ _) :=
      (before holds).modify fun _ => ⟨rfl, rfl⟩
    exact (within start).modify fun _ => ⟨rfl, rfl⟩

end Registry

/-! ### Runs -/

namespace World

variable {σ : Type} {host : Host σ} {strict : Bool} {w : World σ} {es : List Enrollment}

/-- The worlds that calls of a new registry lead to, each with all that was registered on the way.
In between the host may change in any way. -/
inductive Enrolled (host : Host σ) (strict : Bool) : List Enrollment → World σ → Prop
  | new (start : σ) : Enrolled host strict [] ⟨start, .empty strict, []⟩
  | call {es new : List Enrollment} {w : World σ} {c : Call} : Enrolled host strict es w →
      c.Enrolls host w new → Enrolled host strict (es ++ new) (c.performOn host w)
  | other {es : List Enrollment} {w : World σ} (state : σ) :
      Enrolled host strict es w → Enrolled host strict es { w with host := state }

theorem Enrolled.evolves (enrolled : Enrolled host strict es w) :
    Registry.Evolves (.empty strict) es w.registry := by
  induction enrolled with
  | new start => exact .rest _
  | call _ enrolls ih => exact ih.trans enrolls.evolves
  | other state _ ih => exact ih

theorem Enrolled.holds (enrolled : Enrolled host strict es w) : w.registry.Holds es :=
  enrolled.evolves.holds (.empty strict)

theorem Enrolled.assembled (enrolled : Enrolled host strict es w) : w.registry.Assembled :=
  enrolled.evolves.assembled (Registry.assembled_empty strict)

end World

end Interpose
