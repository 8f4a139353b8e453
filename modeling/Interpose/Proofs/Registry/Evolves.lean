import Interpose.Proofs.Registry.Run

/-!
How a registry changes. A host may call back into the registry while it serves a request, and
perhaps it is called back in turn. As long as it does to the registry only what anybody else can do,
every call registers points, patches methods and restores them, with more of the same nested inside
to any depth. None of it touches a method that is being patched or restored.
-/

set_option autoImplicit false
set_option relaxedAutoImplicit false

namespace Interpose

structure Enrollment where
  method : MethodId
  point : Point
  callback : Callback

def enrollments (m : MethodId) (points : List (Point × Callback)) : List Enrollment :=
  points.map fun e => ⟨m, e.1, e.2⟩

/-- A handle holds the body that was assembled from its saved body with the points of a method. -/
def Slot.Assembled (slot : Slot) (handle : Handle) : Prop :=
  Assembly.assemble slot.name slot.points handle.saved = (handle.applied, .ok handle.patched)

/-- The method is being patched or restored. -/
def Slot.Busy (slot : Slot) : Prop :=
  slot.state = .installing ∨ ∃ handle, slot.state = .uninstalling handle

namespace Registry

/-- The ways in which a registry changes, with the points that are registered on the way. Between
the start of a patching and its end, and of a restoring, there may be other changes. -/
inductive Evolves : Registry → List Enrollment → Registry → Prop
  | rest (r : Registry) : Evolves r [] r
  | add {r s t : Registry} {es : List Enrollment} {m : MethodId} {name : String}
      {points : List (Point × Callback)} : Evolves r es s → s.add m name points = .ok t →
      Evolves r (es ++ enrollments m points) t
  | patch {r s t : Registry} {es inner : List Enrollment} {m : MethodId} {slot : Slot}
      (state : PatchState) : Evolves r es s → s.find? m = some slot → slot.state = .unpatched →
      Evolves (s.startInstall m) inner t →
      (state = .unpatched ∨ ∃ handle, state = .installed handle ∧ slot.Assembled handle) →
      Evolves r (es ++ inner) (t.setState m state)
  | restore {r s t : Registry} {es inner : List Enrollment} {m : MethodId} {slot : Slot}
      {handle : Handle} (state : PatchState) : Evolves r es s → s.find? m = some slot →
      slot.state = .installed handle → Evolves (s.setState m (.uninstalling handle)) inner t →
      (state = .unpatched ∨ state = .installed handle) →
      Evolves r (es ++ inner) (t.setState m state)

namespace Evolves

variable {r s t : Registry} {es more : List Enrollment} {m k : MethodId} {slot : Slot}

theorem trans (first : Evolves r es s) (second : Evolves s more t) : Evolves r (es ++ more) t := by
  induction second with
  | rest s => rwa [List.append_nil]
  | add _ added ih =>
    rw [← List.append_assoc]
    exact .add (ih first) added
  | patch state _ found unpatched inner outcome ih _ =>
    rw [← List.append_assoc]
    exact .patch state (ih first) found unpatched inner outcome
  | restore state _ found installed inner outcome ih _ =>
    rw [← List.append_assoc]
    exact .restore state (ih first) found installed inner outcome

/-- A method that is being patched or restored stays as it is. -/
theorem keeps_busy (evolves : Evolves r es t) (found : r.find? m = some slot) (busy : slot.Busy) :
    t.find? m = some slot := by
  have other : ∀ {k : MethodId} {there : Slot}, some there = some slot →
      there.state = .unpatched ∨ (∃ handle, there.state = .installed handle) → k ≠ m := by
    rintro k there same settled rfl
    obtain rfl := Option.some.inj same
    rcases busy with state | ⟨_, state⟩ <;> rcases settled with settled | ⟨_, settled⟩ <;>
      cases state.symm.trans settled
  -- Only a settled method is patched or restored, which a busy one is not.
  induction evolves with
  | rest r => exact found
  | add _ added ih =>
    rcases find_add added m with same | ⟨-, _, -, -, before⟩
    · exact same.trans (ih found)
    · exact absurd rfl (other (k := m) rfl (.inl (before slot (ih found))))
  | @patch r s t _ _ k there state _ known unpatched _ _ ih inner =>
    have apart : m ≠ k := by
      rintro rfl
      exact other (known.symm.trans (ih found)) (.inl unpatched) rfl
    rw [find_setState, if_neg apart]
    refine inner ?_
    rw [find_startInstall, if_neg apart]
    exact ih found
  | @restore r s t _ _ k there handle state _ known installed _ _ ih inner =>
    have apart : m ≠ k := by
      rintro rfl
      exact other (known.symm.trans (ih found)) (.inr ⟨handle, installed⟩) rfl
    rw [find_setState, if_neg apart]
    refine inner ?_
    rw [find_setState, if_neg apart]
    exact ih found

theorem find_patched (found : s.find? m = some slot) (inner : Evolves (s.startInstall m) more t)
    (state : PatchState) (k : MethodId) : (t.setState m state).find? k =
      if k = m then some { slot with state, searches := slot.searches + 1 } else t.find? k := by
  rw [find_setState]
  split
  · next same => rw [same, inner.keeps_busy (find_started found) (.inl rfl), Option.map_some]
  · rfl

theorem find_restored {handle : Handle} (found : s.find? m = some slot)
    (inner : Evolves (s.setState m (.uninstalling handle)) more t) (state : PatchState)
    (k : MethodId) :
    (t.setState m state).find? k = if k = m then some { slot with state } else t.find? k := by
  rw [find_setState]
  split
  · next same =>
    rw [same, inner.keeps_busy (find_set found _) (.inr ⟨handle, rfl⟩), Option.map_some]
  · rfl

end Evolves

end Registry

open Registry (Evolves)

variable {σ : Type} {host : Host σ} {w : World σ}

/-! ### Hosts -/

namespace Host

/-- What the host does to the registry while it serves a request, calls of the registry can do. -/
structure Operates (host : Host σ) : Prop where
  load : ∀ w m, ∃ es, Evolves w.registry es (host.loadBody w m).2.registry
  activate : ∀ w m body, ∃ es, Evolves w.registry es (host.activate w m body).2.registry
  restore : ∀ w m body, ∃ es, Evolves w.registry es (host.restore w m body).2.registry

structure KeepsRegistry (host : Host σ) : Prop where
  load : ∀ w m, (host.loadBody w m).2.registry = w.registry
  activate : ∀ w m body, (host.activate w m body).2.registry = w.registry
  restore : ∀ w m body, (host.restore w m body).2.registry = w.registry

theorem KeepsRegistry.operates (keeps : host.KeepsRegistry) : host.Operates where
  load w m := ⟨[], by rw [keeps.load]; exact .rest _⟩
  activate w m body := ⟨[], by rw [keeps.activate]; exact .rest _⟩
  restore w m body := ⟨[], by rw [keeps.restore]; exact .rest _⟩

theorem Atomic.keepsRegistry {ε : Type} {entry : σ → MethodId → ε} {running : ε → Option Body}
    (atomic : host.Atomic entry running) : host.KeepsRegistry :=
  ⟨atomic.load_registry, fun w m body => (atomic.activate w m body).registry,
    fun w m body => (atomic.restore w m body).registry⟩

end Host

/-! ### Calls -/

namespace World

theorem activatePatched_evolves (operates : host.Operates) (w : World σ) (slot : Slot)
    (m : MethodId) : ∃ result after es,
      w.activatePatched host m slot.name slot.points = (result, after) ∧
      Evolves w.registry es after.registry ∧
      ∀ handle, result = .ok handle → slot.Assembled handle := by
  obtain ⟨es, evolves⟩ := operates.load w m
  rcases loading : host.loadBody w m with ⟨e | body, u⟩
  · rw [loading] at evolves
    exact ⟨.error (.host e), u, es, by simp only [activatePatched, loading], evolves, by simp⟩
  · rw [loading] at evolves
    rcases assembled : Assembly.assemble slot.name slot.points body with ⟨applied, result⟩
    rw [← (u.warnFallbacks_same slot.name applied).1] at evolves
    cases result with
    | error e =>
      exact ⟨.error e, u.warnFallbacks slot.name applied, es,
        by simp only [activatePatched, loading, assembled], evolves, by simp⟩
    | ok patched =>
      obtain ⟨more, onward⟩ := operates.activate (u.warnFallbacks slot.name applied) m patched
      rcases answered : host.activate (u.warnFallbacks slot.name applied) m patched with
        ⟨e | done, after⟩
      · rw [answered] at onward
        exact ⟨.error (.host e), after, es ++ more,
          by simp only [activatePatched, loading, assembled, answered], evolves.trans onward,
          by simp⟩
      · rw [answered] at onward
        refine ⟨.ok ⟨m, slot.name, body, patched, applied⟩, after, es ++ more,
          by simp only [activatePatched, loading, assembled, answered], evolves.trans onward, ?_⟩
        rintro handle same
        obtain rfl := Except.ok.inj same
        exact assembled

theorem install_evolves (operates : host.Operates) (w : World σ) (m : MethodId) :
    ∃ es, Evolves w.registry es (w.install host m).2.registry := by
  cases found : w.registry.find? m with
  | none => exact ⟨[], by simpa only [install, World.slot, found] using .rest _⟩
  | some slot =>
    cases state : slot.state with
    | installed handle | installing | uninstalling handle =>
      exact ⟨[], by simpa only [install, World.slot, found, state] using .rest _⟩
    | unpatched =>
      obtain ⟨result, tried, es, done, inner, assembles⟩ := activatePatched_evolves operates
        (w.withRegistry (w.registry.startInstall m)) slot m
      cases result with
      | error e =>
        refine ⟨es, ?_⟩
        simp only [install, World.slot, found, state, done]
        exact .patch .unpatched (.rest _) found state inner (.inl rfl)
      | ok handle =>
        refine ⟨es, ?_⟩
        simp only [install, World.slot, found, state, done]
        exact .patch (.installed handle) (.rest _) found state inner
          (.inr ⟨handle, rfl, assembles handle rfl⟩)

theorem uninstall_evolves (operates : host.Operates) (w : World σ) (m : MethodId) :
    ∃ es, Evolves w.registry es (w.uninstall host m).2.registry := by
  cases found : w.registry.find? m with
  | none => exact ⟨[], by simpa only [uninstall, World.slot, found] using .rest _⟩
  | some slot =>
    cases state : slot.state with
    | unpatched | installing | uninstalling handle =>
      exact ⟨[], by simpa only [uninstall, World.slot, found, state] using .rest _⟩
    | installed handle =>
      obtain ⟨es, inner⟩ := operates.restore (w.setState m (.uninstalling handle)) m handle.saved
      rcases answered : host.restore (w.setState m (.uninstalling handle)) m handle.saved with
        ⟨e | done, after⟩
      · rw [answered] at inner
        refine ⟨es, ?_⟩
        simp only [uninstall, World.slot, found, state, answered]
        exact .restore (.installed handle) (.rest _) found state inner (.inr rfl)
      · rw [answered] at inner
        refine ⟨es, ?_⟩
        simp only [uninstall, World.slot, found, state, answered]
        exact .restore .unpatched (.rest _) found state inner (.inl rfl)

/-- The points that a registration adds: those of the patch, or none if it is refused. -/
def enrolledBy (w : World σ) (host : Host σ) (patch : MethodPatch) : List Enrollment :=
  match (w.register host patch).1 with
  | .ok m => enrollments m patch.points
  | .error _ => []

theorem register_evolves (w : World σ) (patch : MethodPatch) :
    Evolves w.registry (w.enrolledBy host patch) (w.register host patch).2.registry := by
  cases resolved : host.resolve w.host patch.target with
  | error e => simpa only [enrolledBy, register, resolved] using .rest _
  | ok m =>
    cases added : w.registry.add m (host.describe w.host m) patch.points with
    | error e => simpa only [enrolledBy, register, resolved, added] using .rest _
    | ok registry =>
      simp only [enrolledBy, register, resolved, added]
      exact .add (.rest _) added

end World

namespace Call

/-- The points that are registered during a call: those of a registration, or what the host
registers meanwhile. -/
def Enrolls (host : Host σ) (w : World σ) (new : List Enrollment) : Call → Prop
  | .register patch => new = w.enrolledBy host patch
  | c => Evolves w.registry new (c.performOn host w).registry

theorem Enrolls.evolves {c : Call} {new : List Enrollment} (enrolls : c.Enrolls host w new) :
    Evolves w.registry new (c.performOn host w).registry := by
  cases c with
  | register patch =>
    obtain rfl := enrolls
    exact w.register_evolves patch
  | install _ | uninstall _ | installAll | uninstallAll => exact enrolls

theorem enrolls (operates : host.Operates) (w : World σ) (c : Call) :
    ∃ new, c.Enrolls host w new := by
  have evolves : ∀ c : Call, ∃ new, Evolves w.registry new (c.performOn host w).registry := by
    have onward : ∀ {u v : World σ}, (∃ es, Evolves w.registry es u.registry) →
        (∃ es, Evolves u.registry es v.registry) → ∃ es, Evolves w.registry es v.registry :=
      fun ⟨_, first⟩ ⟨_, second⟩ => ⟨_, first.trans second⟩
    exact fun c => c.performOn_preserves (P := fun u => ∃ es, Evolves w.registry es u.registry)
      (fun u patch before => onward before ⟨_, u.register_evolves patch⟩)
      (fun u m before => onward before (u.install_evolves operates m))
      (fun u m before => onward before (u.uninstall_evolves operates m))
      (fun _ _ _ before => before) ⟨[], .rest _⟩
  cases c with
  | register patch => exact ⟨_, rfl⟩
  | install _ | uninstall _ | installAll | uninstallAll => exact evolves _

end Call

end Interpose
