import Interpose.Proofs.Plugin.Unload

/-!
A plugin over a host in memory, from its load to its end. A failed load leaves no trace. Whatever is
done with a loaded plugin, unloading or dropping it gives every method back the body from before the
load, unless the method is installed and locked at that moment; unloading fails exactly if there is
such a method. Only a plugin that is dropped by the unwinding of a panic gives nothing back.
-/

set_option autoImplicit false
set_option relaxedAutoImplicit false

namespace Interpose.Plugin

open World (Run Restorable UninstallsAll SameAt)

variable {settings : Settings} {patches : List MethodPatch} {start : Memory} {w : World Memory}
  {k : MethodId}

/-- The worlds of a loaded plugin. Its registry may be called, and the host may lock and unlock
methods and change in any way that leaves all bodies alone. -/
inductive Serves (settings : Settings) (patches : List MethodPatch) (start : Memory) :
    World Memory → Prop
  | loaded {w : World Memory} : load .memory settings patches start = (.ok (), w) →
      Serves settings patches start w
  | call {w : World Memory} (c : Call) : Serves settings patches start w →
      Serves settings patches start (c.perform w)
  | lock {w : World Memory} (m : MethodId) (locked : Bool) : Serves settings patches start w →
      Serves settings patches start { w with host := w.host.setLocked m locked }
  | other {w : World Memory} (host : Memory) : Serves settings patches start w →
      (∀ m, host.activeBody? m = w.host.activeBody? m) →
      Serves settings patches start { w with host }

theorem Serves.run (serves : Serves settings patches start w) :
    Run (fun _ => True) settings.strict start w := by
  induction serves with
  | loaded loaded => exact (load_ok loaded).1
  | call c _ ih => exact ih.call c
  | lock m locked _ ih => exact ih.lock m locked
  | other host _ same ih => exact ih.other host fun m _ => same m

/-! ### Unloading and dropping -/

theorem drop_unloads (restorable : w.Restorable) :
    ∃ result, UninstallsAll w (drop .memory false w) result := by
  by_cases none : w.registry.installed = []
  · refine ⟨.ok 0, ?_⟩
    have idle : ∀ {m handle}, w.registry.state? m ≠ some (.installed handle) := by
      intro m handle installed
      have member := (Registry.mem_installed_iff restorable.distinct).mpr ⟨handle, installed⟩
      rw [none] at member
      cases member
    rw [drop, none, Bool.false_or]
    exact ⟨rfl, fun _ => rfl, fun _ _ => .refl, fun _ _ installed => absurd installed idle,
      fun _ => by rw [none]; rfl, fun ⟨_, member, _⟩ => by rw [none] at member; cases member⟩
  · have noted : (w.logged .warning
        "Module dropped without unload, restoring original bodies").Restorable :=
      restorable.over restorable.known _
    obtain ⟨result, u, done, all⟩ := noted.uninstallAll
    have some : w.registry.installed.isEmpty = false := by simpa using none
    refine ⟨result, ?_⟩
    simp only [drop, some, done, Bool.false_or]
    cases result with
    | ok n => exact all.of_logged
    | error e => exact all.of_logged.logged

theorem drop_unwinding (w : World Memory) : drop .memory true w = w := by
  rw [drop, Bool.true_or, if_pos rfl]

theorem drop_stays (restorable : w.Restorable)
    (locked : ∀ k ∈ w.registry.installed, w.host.isLocked k = true) (unwinding : Bool)
    (k : MethodId) : SameAt Memory.method? k w (drop .memory unwinding w) := by
  cases unwinding with
  | true => exact drop_unwinding w ▸ .refl
  | false =>
    obtain ⟨result, all⟩ := drop_unloads restorable
    exact all.stays k (locked k)

/-- Unloading uninstalls everything. It is a failure that the host cannot go on from exactly if a
method is locked, and it counts the methods otherwise. -/
theorem unload_unloads (restorable : w.Restorable) : ∃ result,
    UninstallsAll w (unload .memory w).2 result ∧
      (∀ k, SameAt Memory.method? k (w.uninstallAll .memory).2 (unload .memory w).2) ∧
      ((∀ k ∈ w.registry.installed, w.host.isLocked k = false) →
        (unload .memory w).1 = .ok w.registry.installed.length) ∧
      ((∃ k ∈ w.registry.installed, w.host.isLocked k = true) →
        ∃ name source, (unload .memory w).1 = .error (.unrestored name source)) := by
  obtain ⟨result, u, done, all⟩ := restorable.uninstallAll
  refine ⟨result, ?_⟩
  simp only [unload, done]
  by_cases locked : ∃ k ∈ w.registry.installed, w.host.isLocked k = true
  · obtain ⟨name, source, rfl⟩ := all.fails locked
    dsimp only
    rw [drop_unwinding]
    refine ⟨all.logged, fun _ => ⟨rfl, rfl⟩, fun unlocked => ?_, fun _ => ⟨name, source, rfl⟩⟩
    obtain ⟨k, member, locked⟩ := locked
    rw [unlocked k member] at locked
    cases locked
  · have unlocked : ∀ k ∈ w.registry.installed, w.host.isLocked k = false := by
      simpa using locked
    obtain rfl := all.complete unlocked
    have dropped : drop .memory false u = u := by
      rw [drop, all.none_left restorable unlocked]
      rfl
    dsimp only
    rw [dropped]
    exact ⟨all, fun _ => .refl, fun _ => rfl, fun held => absurd held locked⟩

/-- The body of every method that is not held by a lock is again the one from before the load. -/
theorem Serves.restores (serves : Serves settings patches start w) {u : World Memory}
    {result : Except PatchError Nat} (all : UninstallsAll w u result)
    (free : ¬(k ∈ w.registry.installed ∧ w.host.isLocked k = true)) :
    u.host.activeBody? k = start.activeBody? k := by
  have distinct := serves.run.distinct
  have intact : w.Intact start k := serves.run.intact trivial
  by_cases member : k ∈ w.registry.installed
  · have unlocked : w.host.isLocked k = false := by simpa [member] using free
    obtain ⟨handle, installed⟩ := (Registry.mem_installed_iff distinct).mp member
    rw [(all.gives_back k handle installed unlocked).2, (intact.of_installed installed).1]
  · have same := all.stays k fun inside => absurd inside member
    rw [Memory.activeBody?, same.entry, ← Memory.activeBody?]
    exact intact.of_not_installed fun handle installed =>
      member ((Registry.mem_installed_iff distinct).mpr ⟨handle, installed⟩)

/-- A plugin leaves no trace. If it fails to load, every body is as it was before. If it is unloaded
or dropped after any use, every method that is not installed and locked then runs the body from
before the load. Unloading fails for good exactly if some installed method is locked, and otherwise
tells how many were installed. To drop the plugin once more changes nothing. It is different if a
panic drops the plugin: then everything stays as it is. -/
theorem plugin_leaves_no_trace (settings : Settings) (patches : List MethodPatch)
    (start : Memory) :
    (∀ e w, load .memory settings patches start = (.error e, w) →
      ∀ k, w.host.activeBody? k = start.activeBody? k) ∧
    ∀ w, Serves settings patches start w →
      (∀ k, ¬(k ∈ w.registry.installed ∧ w.host.isLocked k = true) →
        (unload .memory w).2.host.activeBody? k = start.activeBody? k ∧
          (drop .memory false w).host.activeBody? k = start.activeBody? k) ∧
      ((∃ name source, (unload .memory w).1 = .error (.unrestored name source)) ↔
        ∃ k ∈ w.registry.installed, w.host.isLocked k = true) ∧
      ((∀ k ∈ w.registry.installed, w.host.isLocked k = false) →
        (unload .memory w).1 = .ok w.registry.installed.length) ∧
      (∀ k, SameAt Memory.method? k (w.uninstallAll .memory).2 (unload .memory w).2 ∧
        ∀ unwinding, SameAt Memory.method? k (unload .memory w).2
          (drop .memory unwinding (unload .memory w).2)) ∧
      drop .memory true w = w := by
  refine ⟨fun e w failed k => load_failed failed k, fun w serves => ?_⟩
  have restorable := serves.run.restorable
  obtain ⟨result, unloaded, same, complete, fails⟩ := unload_unloads restorable
  obtain ⟨_, dropped⟩ := drop_unloads restorable
  refine ⟨fun k free => ⟨serves.restores unloaded free, serves.restores dropped free⟩,
    ⟨fun ⟨name, source, failed⟩ => ?_, fails⟩, complete, fun k => ⟨same k, fun unwinding => ?_⟩,
    drop_unwinding w⟩
  · by_contra open_
    have counted := complete (by simpa using open_)
    rw [failed] at counted
    cases counted
  · have after := unloaded.restorable restorable
    refine drop_stays after (fun k member => ?_) unwinding k
    obtain ⟨handle, installed⟩ := (Registry.mem_installed_iff after.distinct).mp member
    rw [unloaded.locked_iff]
    exact (unloaded.leaves_locked restorable.distinct installed).2

def pairedHost : Memory := World.latchedHost.setLocked ⟨2⟩ false

def pairedPatches : List MethodPatch := [World.guardPatch "open", World.guardPatch "latched"]

theorem latched_unload : ∃ w, Serves .standard pairedPatches pairedHost w ∧
    w.registry.installed = [⟨1⟩, ⟨2⟩] ∧ w.host.isLocked ⟨2⟩ = true ∧
    (∃ name source, (unload .memory w).1 = .error (.unrestored name source)) ∧
    w.host.activeBody? ⟨1⟩ ≠ some guardedBody ∧
    (unload .memory w).2.host.activeBody? ⟨1⟩ = some guardedBody := by
  have loaded : load .memory .standard pairedPatches pairedHost = (.ok (), _) := rfl
  have serves := (Serves.loaded loaded).lock ⟨2⟩ true
  obtain ⟨restores, fails, -⟩ := (plugin_leaves_no_trace _ _ _).2 _ serves
  refine ⟨_, serves, rfl, rfl, fails.mpr ⟨⟨2⟩, by decide, rfl⟩, by decide, ?_⟩
  exact (restores ⟨1⟩ (by decide)).1

/-- A method was locked when the plugin was to give it back, and is not any more; but if the plugin
goes by the unwinding of a panic, the method runs its patched body for good. -/
theorem unwinding_drop_leaves_patched : ∃ w, Serves .standard pairedPatches pairedHost w ∧
    w.registry.installed = [⟨2⟩] ∧ w.host.isLocked ⟨2⟩ = false ∧
    (drop .memory true w).host.activeBody? ⟨2⟩ ≠ pairedHost.activeBody? ⟨2⟩ := by
  have loaded : load .memory .standard pairedPatches pairedHost = (.ok (), _) := rfl
  have serves := (((Serves.loaded loaded).lock ⟨2⟩ true).call .uninstallAll).lock ⟨2⟩ false
  exact ⟨_, serves, rfl, rfl, by decide⟩

end Interpose.Plugin
