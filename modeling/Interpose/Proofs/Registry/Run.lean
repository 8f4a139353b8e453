import Interpose.Proofs.Registry.Bulk
import Interpose.Proofs.Registry.Steps
import Interpose.Proofs.Splice.Transparency

/-!
Runs of a registry over a host in memory. Whatever is registered, installed and uninstalled in
whatever order, between any two calls every method runs the body it had at the start, or a patched
body with a handle that remembers the one from the start.
-/

set_option autoImplicit false
set_option relaxedAutoImplicit false

namespace Interpose

inductive Call
  | register (patch : MethodPatch)
  | install (m : MethodId)
  | uninstall (m : MethodId)
  | installAll
  | uninstallAll

def Call.perform (w : World Memory) : Call → World Memory
  | .register patch => (w.register .memory patch).2
  | .install m => (w.install .memory m).2
  | .uninstall m => (w.uninstall .memory m).2
  | .installAll => (w.installAll .memory).2
  | .uninstallAll => (w.uninstallAll .memory).2

namespace Call

variable {σ ε : Type} {host : Host σ} {entry : σ → MethodId → ε} {running : ε → Option Body}
  {w : World σ}

def performOn (host : Host σ) (w : World σ) : Call → World σ
  | .register patch => (w.register host patch).2
  | .install m => (w.install host m).2
  | .uninstall m => (w.uninstall host m).2
  | .installAll => (w.installAll host).2
  | .uninstallAll => (w.uninstallAll host).2

theorem perform_eq_on (w : World Memory) (c : Call) : c.perform w = c.performOn .memory w := by
  cases c <;> rfl

theorem performOn_preserves {P : World σ → Prop}
    (registered : ∀ w patch, P w → P (w.register host patch).2)
    (installed : ∀ w m, P w → P (w.install host m).2)
    (uninstalled : ∀ w m, P w → P (w.uninstall host m).2)
    (logged : ∀ w severity text, P w → P (w.logged severity text)) (c : Call) (holds : P w) :
    P (c.performOn host w) := by
  cases c with
  | register patch => exact registered w patch holds
  | install m => exact installed w m holds
  | uninstall m => exact uninstalled w m holds
  | installAll => exact World.installEach_preserves installed uninstalled logged [] _ holds
  | uninstallAll => exact World.uninstallAll_preserves uninstalled holds

theorem performOn_distinct (atomic : host.Atomic entry running) (c : Call)
    (distinct : w.registry.methods.Nodup) : (c.performOn host w).registry.methods.Nodup := by
  refine performOn_preserves (P := fun w => w.registry.methods.Nodup)
    (fun _ patch => World.register_distinct host patch) (fun w m distinct => ?_)
    (fun w m distinct => ?_) (fun _ _ _ distinct => distinct) c distinct
  · rwa [World.install_methods atomic]
  · rwa [World.uninstall_methods atomic]

end Call

namespace World

/-- The worlds that calls of a new registry lead to. In between the host may lock and unlock
methods, and may change in any way that leaves the bodies of the methods in `kept` alone. -/
inductive Run (kept : MethodId → Prop) (strict : Bool) (start : Memory) : World Memory → Prop
  | new : Run kept strict start ⟨start, .empty strict, []⟩
  | call {w : World Memory} (c : Call) :
      Run kept strict start w → Run kept strict start (c.perform w)
  | lock {w : World Memory} (m : MethodId) (locked : Bool) : Run kept strict start w →
      Run kept strict start { w with host := w.host.setLocked m locked }
  | other {w : World Memory} (host : Memory) : Run kept strict start w →
      (∀ m, kept m → host.activeBody? m = w.host.activeBody? m) →
      Run kept strict start { w with host }

/-- The method runs the body it had at the start, or a patched body with a handle that remembers
that one. A method without points is as it was. -/
def Intact (start : Memory) (w : World Memory) (m : MethodId) : Prop :=
  match w.registry.find? m with
  | none => w.host.activeBody? m = start.activeBody? m
  | some slot => ∃ body, start.activeBody? m = some body ∧
      (slot.state = .unpatched ∧ w.host.activeBody? m = some body ∨
        ∃ handle, slot.state = .installed handle ∧ handle.saved = body ∧
          w.host.activeBody? m = some handle.patched)

variable {kept : MethodId → Prop} {start : Memory} {w after : World Memory} {m k : MethodId}

theorem Intact.same (intact : Intact start w m)
    (registry : after.registry.find? m = w.registry.find? m)
    (host : after.host.activeBody? m = w.host.activeBody? m) : Intact start after m := by
  unfold Intact at *
  rw [registry, host]
  exact intact

theorem Intact.elsewhere (intact : Intact start w k) (elsewhere : SameElsewhere m w after)
    (other : k ≠ m) : Intact start after k := by
  obtain ⟨registry, host⟩ := elsewhere k other
  exact intact.same registry (by rw [Memory.activeBody?, host, Memory.activeBody?])

/-! ### One method -/

theorem Intact.install (intact : Intact start w k) (m : MethodId) :
    Intact start (w.install .memory m).2 k := by
  by_cases same : k = m
  case neg => exact intact.elsewhere (w.install_sameElsewhere m) same
  subst same
  rcases w.install_steps Memory.atomic k with ⟨result, same, -⟩ |
    ⟨result, after, slot, done, found, unpatched, -, outcome⟩
  · rwa [same]
  · rw [done]
    simp only [Intact, found, unpatched] at intact
    obtain ⟨body, origin, ⟨-, active⟩ | ⟨_, installed, -⟩⟩ := intact
    · rcases outcome with ⟨e, -, same, there⟩ | ⟨handle, -, placed, there⟩
      · simp only [Intact, there]
        refine ⟨body, origin, .inl ⟨trivial, ?_⟩⟩
        rw [Memory.activeBody?, same]
        exact active
      · simp only [Intact, there]
        exact ⟨body, origin, .inr ⟨handle, rfl,
          Option.some.inj (placed.saved.symm.trans active), placed.patched⟩⟩
    · cases installed

theorem Intact.uninstall (intact : Intact start w k) (m : MethodId) :
    Intact start (w.uninstall .memory m).2 k := by
  by_cases same : k = m
  case neg => exact intact.elsewhere (w.uninstall_sameElsewhere m) same
  subst same
  rcases w.uninstall_steps Memory.atomic k with ⟨result, same, -⟩ |
    ⟨result, after, slot, handle, done, found, installed, -, outcome⟩
  · rwa [same]
  · rw [done]
    simp only [Intact, found, installed] at intact
    obtain ⟨body, origin, ⟨unpatched, -⟩ | ⟨known, here, saved, patched⟩⟩ := intact
    · cases unpatched
    · obtain rfl := PatchState.installed.inj here
      rcases outcome with ⟨e, -, same, there, -⟩ | ⟨-, active, there⟩
      · simp only [Intact, there]
        refine ⟨body, origin, .inr ⟨handle, rfl, saved, ?_⟩⟩
        rw [Memory.activeBody?, same]
        exact patched
      · simp only [Intact, there]
        exact ⟨body, origin, .inl ⟨trivial, saved ▸ active⟩⟩

theorem Intact.register (intact : Intact start w k) (patch : MethodPatch) :
    Intact start (w.register .memory patch).2 k := by
  unfold World.register
  split
  · exact intact
  next m resolved =>
  split
  · exact intact
  next registry added =>
  rcases Registry.find_add added k with same | ⟨rfl, slot, there, unpatched, before⟩
  · exact intact.same same rfl
  · simp only [Intact, withRegistry, there]
    cases found : w.registry.find? k with
    | none =>
      simp only [Intact, found] at intact
      obtain ⟨body, active⟩ := Memory.resolve_ok resolved
      exact ⟨body, intact.symm.trans active, .inl ⟨unpatched, active⟩⟩
    | some old =>
      simp only [Intact, found, before old found] at intact
      obtain ⟨body, origin, ⟨-, active⟩ | ⟨_, installed, -⟩⟩ := intact
      · exact ⟨body, origin, .inl ⟨unpatched, active⟩⟩
      · cases installed

theorem Intact.perform (intact : Intact start w k) (c : Call) : Intact start (c.perform w) k := by
  rw [c.perform_eq_on]
  exact Call.performOn_preserves (P := fun w => Intact start w k)
    (fun _ patch intact => intact.register patch) (fun _ m intact => intact.install m)
    (fun _ m intact => intact.uninstall m) (fun _ _ _ intact => intact.same rfl rfl) c intact

/-! ### Runs -/

theorem Run.intact {strict : Bool} (run : Run kept strict start w) (untouched : kept m) :
    Intact start w m := by
  induction run with
  | new => rfl
  | call c _ ih => exact ih.perform c
  | lock k locked _ ih => exact ih.same rfl (Memory.active_setLocked _ k m locked)
  | other host _ same ih => exact ih.same rfl (same m untouched)

theorem Run.distinct {strict : Bool} (run : Run kept strict start w) :
    w.registry.methods.Nodup := by
  induction run with
  | new => exact List.nodup_nil
  | call c _ ih =>
    rw [c.perform_eq_on]
    exact c.performOn_distinct Memory.atomic ih
  | lock _ _ _ ih | other _ _ _ ih => exact ih

theorem find_of_mem {r : Registry} (member : m ∈ r.methods) : ∃ slot, r.find? m = some slot := by
  obtain ⟨slot, known, rfl⟩ := List.mem_map.mp member
  cases found : r.find? slot.method with
  | none => simpa using List.find?_eq_none.mp found slot known
  | some slot => exact ⟨slot, rfl⟩

end World

/-! ### Installed methods -/

namespace Registry

variable {r : Registry} {m : MethodId}

theorem slot_of_find {slot : Slot} (found : r.find? m = some slot) :
    slot ∈ r.slots ∧ slot.method = m :=
  ⟨List.mem_of_find?_eq_some found, by simpa using List.find?_some found⟩

theorem mem_of_find {slot : Slot} (found : r.find? m = some slot) : m ∈ r.methods :=
  List.mem_map.mpr ⟨slot, slot_of_find found⟩

theorem find_of_slot {slot : Slot} (distinct : r.methods.Nodup) (member : slot ∈ r.slots) :
    r.find? slot.method = some slot := by
  obtain ⟨other, found⟩ := World.find_of_mem (List.mem_map_of_mem (f := (·.method)) member)
  obtain ⟨known, same⟩ := slot_of_find found
  rw [found, List.inj_on_of_nodup_map distinct known member same]

theorem mem_installed_iff (distinct : r.methods.Nodup) :
    m ∈ r.installed ↔ ∃ handle, r.state? m = some (.installed handle) := by
  simp only [installed, List.mem_map, List.mem_filter]
  constructor
  · rintro ⟨slot, ⟨member, installed⟩, rfl⟩
    rw [state?, find_of_slot distinct member]
    cases state : slot.state with
    | installed handle => exact ⟨handle, by rw [Option.map_some, state]⟩
    | unpatched | installing | uninstalling _ => simp [state, PatchState.isInstalled] at installed
  · rintro ⟨handle, installed⟩
    obtain ⟨slot, found, state⟩ := Option.map_eq_some_iff.mp installed
    exact ⟨slot, ⟨(slot_of_find found).1, by rw [state]; rfl⟩, (slot_of_find found).2⟩

theorem mem_of_installed (member : m ∈ r.installed) : m ∈ r.methods :=
  (List.filter_sublist.map _).subset member

theorem installed_eq_filter (distinct : r.methods.Nodup) :
    r.installed = r.methods.filter fun m => decide (m ∈ r.installed) := by
  conv_lhs => unfold installed
  rw [methods, List.filter_map]
  refine congrArg _ (List.filter_congr fun slot member => ?_)
  rw [Function.comp_apply, eq_comm, Bool.eq_iff_iff, decide_eq_true_iff,
    mem_installed_iff distinct, state?, find_of_slot distinct member, Option.map_some]
  cases slot.state <;> simp [PatchState.isInstalled]

theorem length_installed (distinct : r.methods.Nodup) :
    r.installed.length = r.methods.countP fun m => decide (m ∈ r.installed) := by
  rw [List.countP_eq_length_filter, ← installed_eq_filter distinct]

end Registry

namespace World

variable {kept : MethodId → Prop} {start : Memory} {w after : World Memory} {m k : MethodId}

/-- After every call each registered method is unpatched, without a handle and with the body it had
at the start, or installed, with a handle of that body and of the one that runs. Patching or
restoring a method touches no other. -/
theorem registry_run_settled {strict : Bool} (run : Run kept strict start w) :
    (∀ m ∈ w.registry.methods, kept m → ∃ body, start.activeBody? m = some body ∧
      (w.registry.state? m = some .unpatched ∧ w.registry.handle? m = none ∧
          w.host.activeBody? m = some body ∨
        ∃ handle, w.registry.state? m = some (.installed handle) ∧
          w.registry.handle? m = some handle ∧ handle.saved = body ∧
          w.host.activeBody? m = some handle.patched)) ∧
    ∀ m k, k ≠ m →
      ((w.install .memory m).2.registry.find? k = w.registry.find? k ∧
        (w.install .memory m).2.host.method? k = w.host.method? k) ∧
      (w.uninstall .memory m).2.registry.find? k = w.registry.find? k ∧
        (w.uninstall .memory m).2.host.method? k = w.host.method? k := by
  refine ⟨fun m member untouched => ?_, fun m k other =>
    ⟨w.install_sameElsewhere m k other, w.uninstall_sameElsewhere m k other⟩⟩
  obtain ⟨slot, found⟩ := find_of_mem member
  have intact := run.intact untouched
  simp only [Intact, found] at intact
  obtain ⟨body, origin, ⟨unpatched, active⟩ | ⟨handle, installed, saved, active⟩⟩ := intact
  · refine ⟨body, origin, .inl ⟨?_, ?_, active⟩⟩
    · simp [Registry.state?, found, unpatched]
    · simp [Registry.handle?, Registry.state?, found, unpatched, PatchState.handle?]
  · refine ⟨body, origin, .inr ⟨handle, ?_, ?_, saved, active⟩⟩
    · simp [Registry.state?, found, installed]
    · simp [Registry.handle?, Registry.state?, found, installed, PatchState.handle?]

def guardPatch (name : String) : MethodPatch :=
  ⟨name, match ({ guardPoint with name } : PointDraft).build with
    | .ok p => [(p, .consume fun _ => true)]
    | .error _ => []⟩

def guardedHost : Memory := ⟨[⟨"guarded", guardedBody, guardedBody, 0, false⟩]⟩

theorem guarded_run_settled : ∃ w handle, Run (fun _ => True) true guardedHost w ∧
    w.registry.handle? ⟨1⟩ = some handle ∧ handle.saved = guardedBody ∧
    w.host.activeBody? ⟨1⟩ = some handle.patched := by
  obtain ⟨p, built⟩ : ∃ p, guardPoint.build = .ok p := ⟨_, rfl⟩
  have run : Run (fun _ => True) true guardedHost _ :=
    .call (.uninstall ⟨1⟩) (.lock ⟨1⟩ true (.call (.install ⟨1⟩)
      (.call (.register ⟨"guarded", [(p, .consume fun _ => true)]⟩) .new)))
  obtain ⟨body, origin, ⟨state, -⟩ | ⟨handle, -, known, saved, active⟩⟩ :=
    (registry_run_settled run).1 ⟨1⟩ (by cases built; decide) trivial
  · cases built
    exact absurd state (by decide)
  · exact ⟨_, handle, run, known, saved.trans (Option.some.inj origin).symm, active⟩

end World

end Interpose
